import AlopexOS.Arr.Refinement

/-!
# `Arr.Views` — storage that an array does not own (`src/include/arr.hpp`)

A view has the caller's memory for its storage and capacity 0. The destructor asks for the capacity before
it deletes; `grow` and the move assignment ask for the pointer alone. `Op.Safe` is when an operation does
neither to a view, and when `grow` gets storage for the elements there are.

## Contents
- **Quiet steps**, which allocate and delete nothing.
- **`Handles`**: what a member does with storage, whatever the contents are.
- **`Tidy`** programs.
- **Runs**, and a view that is grown.
-/

namespace AlopexOS.Arr

open Prog Ownership

variable {T σ : Type} {E : ElementType T} {new : Nat → Prog σ Unit}

/-! ## Quiet steps -/

/-- Nothing was allocated, and nothing was deleted. -/
structure Quiet (m m' : Memory T) : Prop where
  blocks : m'.blocks.length = m.blocks.length
  deleted : ∀ p, m'.notes.count (.deleted p) = m.notes.count (.deleted p)

namespace Quiet

variable {m m' m'' : Memory T} {p q : Ptr} {i : Nat}

theorem refl (m : Memory T) : Quiet m m := ⟨rfl, fun _ => rfl⟩

theorem trans (h : Quiet m m') (h' : Quiet m' m'') : Quiet m m'' :=
  ⟨h'.blocks.trans h.blocks, fun p => (h'.deleted p).trans (h.deleted p)⟩

theorem note (m : Memory T) {n : Note} (hn : ∀ p, n ≠ .deleted p) : Quiet m (m.note n) :=
  ⟨rfl, fun p => by
    simp only [Memory.note, List.count_append, List.count_singleton, beq_iff_eq, if_neg (hn p), Nat.add_zero]⟩

theorem noteUnless (m : Memory T) {c : Prop} [Decidable c] {n : Note} (hn : ∀ p, n ≠ .deleted p) :
    Quiet m (if c then m else m.note n) := by
  split
  · exact refl m
  · exact note m hn

theorem put (x : Slot T) : Quiet m (m.put p i x) := by
  unfold Memory.put
  split
  · exact ⟨Memory.length_blocks_setSlots, fun q => by rw [Memory.notes_setSlots]⟩
  · exact note m fun _ => Note.noConfusion

theorem construct (x : T) : Quiet m (m.construct p i x) := by
  unfold Memory.construct
  refine trans ?_ (put _)
  split
  · exact note m fun _ => Note.noConfusion
  · exact refl m

theorem destroy : Quiet m (m.destroy p i) := by
  unfold Memory.destroy
  split
  · exact put _
  · exact note m fun _ => Note.noConfusion

theorem load : Quiet m (m.load E p i).2 := by
  unfold Memory.load
  split
  · exact refl m
  · exact note m fun _ => Note.noConfusion

theorem moveTo : Quiet m (m.moveTo E p q i) := load.trans ((put _).trans (construct _))

theorem copyTo : Quiet m (m.copyTo E p q i) := by
  have hload : Quiet m (m.load E p i).2 := load
  exact hload.trans ((noteUnless _ fun _ => Note.noConfusion).trans (put _))

theorem each {f : Memory T → Nat → Memory T} (hf : ∀ m i, Quiet m (f m i)) (i j : Nat) : Quiet m (m.each f i j) := by
  unfold Memory.each
  induction List.range' i (j - i) generalizing m with
  | nil => exact refl m
  | cons i is ih => exact (hf m i).trans ih

end Quiet

/-! ## What a member does with storage -/

/-- The pointer is null, or to a block that is still there, or to the caller's memory and then the capacity
    is 0. -/
def Legal (m : Memory T) (d : Dynarr) : Prop :=
  match d.data with
  | .null => True
  | .heap k => k < m.blocks.length ∧ m.notes.count (.deleted (.heap k)) = 0
  | .external => d.capacity = 0

/-- How often each block was deleted. -/
def Memory.deletions (m : Memory T) : Stock Nat := ⟨m.blocks.length, fun k => m.notes.count (.deleted (.heap k))⟩

/-- Nothing but blocks was deleted. -/
def Memory.BlocksOnly (m : Memory T) : Prop :=
  ∀ p, .deleted p ∈ m.notes → ∃ k < m.blocks.length, p = .heap k

structure Handles (d : Dynarr) (m : Memory T) (d' : Dynarr) (m' : Memory T) : Prop where
  works : Works (· ≤ 1) d.block m.deletions d'.block m'.deletions
  blocksOnly : m.BlocksOnly → m'.BlocksOnly
  legal : Legal m' d'

variable {m m' m'' : Memory T} {d d' d'' e : Dynarr} {t t' : σ × Memory T}

theorem Handles.trans (h : Handles d m d' m') (h' : Handles d' m' d'' m'') : Handles d m d'' m'' :=
  ⟨h.works.trans h'.works, h'.blocksOnly ∘ h.blocksOnly, h'.legal⟩

theorem legal_empty (m : Memory T) : Legal m .empty := trivial

theorem Legal.heap {k : Nat} (h : Legal m d) (hd : d.data = .heap k) :
    k < m.blocks.length ∧ m.notes.count (.deleted (.heap k)) = 0 := by
  unfold Legal at h
  rwa [hd] at h

/-- The array stays where it is, and nothing is allocated or deleted. -/
theorem handles_of_quiet (hq : Quiet m m') (hl : Legal m d) (hd : d'.data = d.data)
    (hcap : d'.capacity = d.capacity) : Handles d m d' m' := by
  have hblock : d'.block = d.block := by rw [Dynarr.block, hd, Dynarr.block]
  refine ⟨⟨Nat.le_of_eq hq.blocks.symm, fun k hk hne => ⟨hblock ▸ hne, hq.deleted _⟩, fun k hk hown => ?_⟩,
    fun hb p hp => ?_, ?_⟩
  · refine Or.inl (hblock ▸ hown.resolve_right (Nat.not_le.mpr ?_))
    simpa only [Memory.deletions, hq.blocks] using hk
  · rw [← List.count_pos_iff, hq.deleted p, List.count_pos_iff] at hp
    rw [hq.blocks]
    exact hb p hp
  · unfold Legal at hl ⊢
    rw [hd, hcap]
    cases hdata : d.data with
    | null => trivial
    | heap k =>
        rw [hdata] at hl
        simpa only [hq.blocks, hq.deleted] using hl
    | external => rwa [hdata] at hl

/-- The storage of an array is deleted, after it may have been handed the next block. -/
theorem handles_delete (hl : Legal m d) (hd : d.data ≠ .external)
    (hcount : ∀ p, m'.notes.count (.deleted p) = m.notes.count (.deleted p))
    (hblocks : m.blocks.length ≤ m'.blocks.length)
    (hgiven : ∀ k < m.blocks.length, d'.block ≠ some k)
    (hnext : ∀ k < m'.blocks.length, m.blocks.length ≤ k → d'.block = some k)
    (hlegal : Legal (m'.delete d.data) d') : Handles d m d' (m'.delete d.data) := by
  refine ⟨⟨?_, fun k hk hown => ⟨hgiven k hk, ?_⟩, fun k hk hown => ?_⟩, fun hb p hp => ?_, hlegal⟩
  · simpa only [Memory.deletions, Memory.blocks_delete] using hblocks
  · have hdata : d.data ≠ .heap k := fun he => hown (block_eq_some.mpr he)
    simp only [Memory.deletions, Memory.count_delete_of_ne hdata, hcount]
  · simp only [Memory.deletions, Memory.blocks_delete] at hk
    rcases hown with hmine | hge
    · have hdata := block_eq_some.mp hmine
      simp only [Memory.deletions, hdata, Memory.count_delete, hcount, (hl.heap hdata).2, Nat.le_refl, or_true]
    · exact Or.inl (hnext k hk hge)
  · rw [Memory.blocks_delete]
    have hold : .deleted p ∈ m'.notes → ∃ k < m'.blocks.length, p = .heap k := by
      intro hp'
      rw [← List.count_pos_iff, hcount p, List.count_pos_iff] at hp'
      obtain ⟨k, hk, he⟩ := hb p hp'
      exact ⟨k, Nat.lt_of_lt_of_le hk hblocks, he⟩
    by_cases hnull : d.data = .null
    · rw [Memory.delete, if_pos hnull] at hp
      exact hold hp
    · rw [Memory.notes_delete hnull] at hp
      rcases List.mem_append.mp hp with hp | hp
      · exact hold hp
      · have he : p = d.data := Note.deleted.inj (List.mem_singleton.mp hp)
        cases hdata : d.data with
        | null => exact absurd hdata hnull
        | heap k => exact ⟨k, Nat.lt_of_lt_of_le (hl.heap hdata).1 hblocks, he.trans hdata⟩
        | external => exact absurd hdata hd

/-- The storage of an array is given back. -/
theorem handles_end (hl : Legal m d) (hd : d.data ≠ .external) : Handles d m .empty (m.delete d.data) :=
  handles_delete hl hd (fun _ => rfl) (Nat.le_refl _) (fun _ _ he => Ptr.noConfusion (block_eq_some.mp he))
    (fun _ hk hge => absurd hk (Nat.not_lt.mpr hge)) (legal_empty _)

/-- An array is left without storage that was not its own. -/
theorem handles_drop (hl : Legal m d) : Handles d m .empty m := by
  refine ⟨⟨Nat.le_refl _, fun k _ _ => ⟨fun he => Ptr.noConfusion (block_eq_some.mp he), rfl⟩, fun k hk hown => ?_⟩,
    id, legal_empty m⟩
  have hdata := block_eq_some.mp (hown.resolve_right (Nat.not_le.mpr hk))
  exact Or.inr (Nat.le_trans (Nat.le_of_eq (hl.heap hdata).2) (Nat.zero_le 1))

/-! ## Members -/

theorem pure_eq_ok {α : Type} {a b : α} (h : (pure a : Prog (σ × Memory T) α).run t = (.ok b, t')) :
    b = a ∧ t' = t := by
  obtain ⟨ha, ht⟩ := Prod.mk.inj h
  exact ⟨(Except.ok.inj ha).symm, ht.symm⟩

namespace Dynarr

variable {n : UInt64}

theorem quiet_moveInto (m : Memory T) (d : Dynarr) (count : Nat) :
    ∃ m', Quiet (m.allocate count).2 m' ∧ d.moveInto E count m = m'.delete d.data :=
  ⟨_, (Quiet.each (fun _ _ => Quiet.moveTo) _ _).trans (Quiet.each (fun _ _ => Quiet.destroy) _ _), rfl⟩

theorem handles_grow (h : (d.grow E new n).run t = (.ok d', t')) (hl : Legal t.2 d) (hd : d.data ≠ .external)
    (hb : t.2.BlocksOnly) : Handles d t.2 d' t'.2 := by
  obtain ⟨rfl, he⟩ := grow_eq_ok h
  obtain ⟨m', hq, hm'⟩ := quiet_moveInto (E := E) t.2 d ((E.sizeof * n).toNat / E.sizeof.toNat)
  have hlen : m'.blocks.length = t.2.blocks.length + 1 := by
    rw [hq.blocks]
    simp [Memory.allocate]
  rw [he, hm']
  have hne : d.data ≠ .heap t.2.blocks.length := fun hdata =>
    absurd (hl.heap hdata).1 (Nat.lt_irrefl _)
  refine handles_delete hl hd (fun p => (hq.deleted p).trans rfl) (by omega) (fun k hk he => ?_)
    (fun k hk hge => ?_) ⟨?_, ?_⟩
  · exact Nat.ne_of_gt hk (Ptr.heap.inj (block_eq_some.mp he))
  · exact block_eq_some.mpr (congrArg Ptr.heap (by omega))
  · rw [Memory.blocks_delete, hlen]
    exact Nat.lt_succ_self _
  · rw [Memory.count_delete_of_ne hne, hq.deleted]
    refine List.count_eq_zero.mpr fun hmem => ?_
    obtain ⟨k, hk, he⟩ := hb _ hmem
    exact Nat.ne_of_gt hk (Ptr.heap.inj he)

theorem handles_grow_or {c : Prop} [Decidable c]
    (h : (if c then d.grow E new n else pure d : Prog (σ × Memory T) Dynarr).run t = (.ok d', t'))
    (hl : Legal t.2 d) (hd : c → d.data ≠ .external) (hb : t.2.BlocksOnly) : Handles d t.2 d' t'.2 := by
  split at h
  · exact handles_grow h hl (hd ‹_›) hb
  · obtain ⟨rfl, rfl⟩ := pure_eq_ok h
    exact handles_of_quiet (.refl _) hl rfl rfl

theorem handles_resize (h : (d.resize E new n).run t = (.ok d', t')) (hl : Legal t.2 d)
    (hd : d.capacity < n → d.data ≠ .external) (hb : t.2.BlocksOnly) : Handles d t.2 d' t'.2 := by
  rw [resize_eq] at h
  obtain ⟨d₁, t₁, hgrow, h⟩ := bind_eq_ok h
  obtain ⟨rfl, rfl⟩ := touch_eq_ok h
  have hhandles := handles_grow_or hgrow hl hd hb
  refine hhandles.trans (handles_of_quiet ?_ hhandles.legal rfl rfl)
  exact (Quiet.each (fun _ _ => Quiet.construct _) _ _).trans (Quiet.each (fun _ _ => Quiet.destroy) _ _)

theorem handles_pushBack {value : Memory T → T × Memory T} (hv : ∀ m, Quiet m (value m).2)
    (h : (d.pushBack E new value).run t = (.ok d', t')) (hl : Legal t.2 d)
    (hd : d.capacity ≤ d.size → d.data ≠ .external) (hb : t.2.BlocksOnly) : Handles d t.2 d' t'.2 := by
  rw [pushBack_eq] at h
  obtain ⟨d₁, t₁, hgrow, h⟩ := bind_eq_ok h
  obtain ⟨rfl, rfl⟩ := touch_eq_ok h
  have hhandles := handles_grow_or hgrow hl hd hb
  exact hhandles.trans (handles_of_quiet ((hv _).trans (Quiet.construct _)) hhandles.legal rfl rfl)

theorem handles_popBack (h : (d.popBack : Prog (σ × Memory T) Dynarr).run t = (.ok d', t'))
    (hl : Legal t.2 d) : Handles d t.2 d' t'.2 := by
  unfold popBack at h
  split at h
  · obtain ⟨rfl, rfl⟩ := touch_eq_ok h
    exact handles_of_quiet Quiet.destroy hl rfl rfl
  · obtain ⟨rfl, rfl⟩ := pure_eq_ok h
    exact handles_of_quiet (.refl _) hl rfl rfl

theorem handles_clear (h : (d.clear : Prog (σ × Memory T) Dynarr).run t = (.ok d', t'))
    (hl : Legal t.2 d) : d' = { d with size := 0 } ∧ Handles d t.2 d' t'.2 := by
  obtain ⟨rfl, rfl⟩ := touch_eq_ok h
  exact ⟨rfl, handles_of_quiet (Quiet.each (fun _ _ => Quiet.destroy) _ _) hl rfl rfl⟩

theorem handles_copyInto (h : (d.resize E new e.size >>= fun d => d.copyFrom E e).run t = (.ok d', t'))
    (hl : Legal t.2 d) (hd : d.capacity < e.size → d.data ≠ .external) (hb : t.2.BlocksOnly) :
    Handles d t.2 d' t'.2 := by
  obtain ⟨d₁, t₁, hresize, h⟩ := bind_eq_ok h
  obtain ⟨rfl, rfl⟩ := touch_eq_ok h
  have hhandles := handles_resize hresize hl hd hb
  exact hhandles.trans (handles_of_quiet (Quiet.each (fun _ _ => Quiet.copyTo) _ _) hhandles.legal rfl rfl)

theorem handles_assignMove {r : Dynarr × Dynarr}
    (h : (d.assignMove e : Prog (σ × Memory T) (Dynarr × Dynarr)).run t = (.ok r, t')) (hl : Legal t.2 d)
    (hd : d.data ≠ .external) : r = (e, .empty) ∧ Handles d t.2 .empty t'.2 := by
  obtain ⟨d₁, t₁, hclear, h⟩ := bind_eq_ok h
  obtain ⟨rfl, rfl⟩ := touch_eq_ok h
  obtain ⟨rfl, hhandles⟩ := handles_clear hclear hl
  exact ⟨rfl, hhandles.trans (handles_end hhandles.legal hd)⟩

/-- The destructor deletes nothing that is not the array's own. -/
theorem handles_destruct {u : Unit} (h : (d.destruct : Prog (σ × Memory T) Unit).run t = (.ok u, t'))
    (hl : Legal t.2 d) : Handles d t.2 .empty t'.2 := by
  obtain ⟨d₁, t₁, hclear, h⟩ := bind_eq_ok h
  obtain ⟨rfl, hhandles⟩ := handles_clear hclear hl
  obtain ⟨-, rfl⟩ := touch_eq_ok h
  refine hhandles.trans ?_
  split
  · next hpos =>
      refine handles_end hhandles.legal fun hdata => ?_
      have hzero : d.capacity = 0 := by
        unfold Legal at hl
        rwa [hdata] at hl
      rw [hzero] at hpos
      exact absurd hpos (by decide)
  · exact handles_drop hhandles.legal

end Dynarr

/-! ## Programs -/

/-- Each block has one array, or none and was deleted once at most. -/
structure Tidy (vars : Vars) (m : Memory T) : Prop where
  legal : ∀ a d, vars a = some d → Legal m d
  accounted : Accounted (· ≤ 1) (fun a => (vars a).bind Dynarr.block) m.deletions
  blocksOnly : m.BlocksOnly

/-- Another array works, and this one is as legal as before. -/
theorem Legal.frame (h : Legal m e) (hh : Handles d m d' m') (hapart : Apart d e) : Legal m' e := by
  unfold Legal at h ⊢
  cases hdata : e.data with
  | null => trivial
  | heap k =>
      rw [hdata] at h
      have hstate := (hh.works.frame k h.1 (hapart k (block_eq_some.mpr hdata))).2
      exact ⟨Nat.lt_of_lt_of_le h.1 hh.works.count_le, hstate.trans h.2⟩
  | external => rwa [hdata] at h

namespace Tidy

variable {vars vars' : Vars} {a b : Nat}

theorem apart (h : Tidy vars m) (hne : a ≠ b) (hb : vars b = some e) (hd : (vars a).bind Dynarr.block = d.block) :
    Apart d e := fun k hk hdk =>
  hne (h.accounted.alone a b k (hd.trans hdk) (by simp only [hb, Option.bind_some, hk]))

/-- One variable changes, by what its array did. -/
theorem update (h : Tidy vars m) (hd : (vars a).bind Dynarr.block = d.block) (hh : Handles d m d' m')
    {v : Option Dynarr} (hv : v = some d' ∨ v = none ∧ d' = .empty) : Tidy (Function.update vars a v) m' := by
  have hblock : v.bind Dynarr.block = d'.block := by
    rcases hv with rfl | ⟨rfl, rfl⟩ <;> rfl
  refine ⟨fun b e hb => ?_, ?_, hh.blocksOnly h.blocksOnly⟩
  · by_cases hba : b = a
    · rw [hba, Function.update_self] at hb
      rcases hv with rfl | ⟨rfl, _⟩
      · exact Option.some.inj hb ▸ hh.legal
      · cases hb
    · rw [Function.update_of_ne hba] at hb
      exact (h.legal b e hb).frame hh (h.apart (Ne.symm hba) hb hd)
  · rw [vars.block_update hblock]
    exact h.accounted.works (by rw [hd]; exact hh.works) fun k hk => (hh.legal.heap (block_eq_some.mp hk)).1

theorem set (h : Tidy vars m) (ha : vars a = some d) (hh : Handles d m d' m') : Tidy (vars.set a d') m' :=
  h.update (by rw [ha, Option.bind_some]) hh (Or.inl rfl)

theorem declare (h : Tidy vars m) (ha : vars a = none) (hh : Handles .empty m d' m') : Tidy (vars.set a d') m' :=
  h.update (by rw [ha]; rfl) hh (Or.inl rfl)

/-- The storage of one array becomes that of another, which had none. -/
theorem hand_over (h : Tidy vars m) (ha : (vars a).bind Dynarr.block = none) (hb : vars b = some e) :
    Tidy ((vars.set a e).set b .empty) m := by
  refine ⟨fun c d hc => ?_, ?_, h.blocksOnly⟩
  · simp only [Vars.set] at hc
    by_cases hcb : c = b
    · rw [hcb, Function.update_self] at hc
      exact Option.some.inj hc ▸ legal_empty m
    · rw [Function.update_of_ne hcb] at hc
      by_cases hca : c = a
      · rw [hca, Function.update_self] at hc
        exact Option.some.inj hc ▸ h.legal b e hb
      · rw [Function.update_of_ne hca] at hc
        exact h.legal c d hc
  · rw [vars.block_hand_over hb]
    exact h.accounted.hand_over ha

end Tidy

namespace Vars

variable {vars vars' : Vars} {a : Nat}

theorem get_eq_ok (h : (vars.get a : Prog (σ × Memory T) Dynarr).run t = (.ok d, t')) :
    vars a = some d ∧ t' = t := by
  unfold get at h
  split at h
  · next e he =>
      obtain ⟨rfl, rfl⟩ := pure_eq_ok h
      exact ⟨he, rfl⟩
  · cases h

theorem declare_eq_ok {x : Prog (σ × Memory T) Dynarr} (h : (vars.declare a x).run t = (.ok vars', t')) :
    vars a = none ∧ ∃ d, x.run t = (.ok d, t') ∧ vars' = vars.set a d := by
  unfold declare at h
  split at h
  · cases h
  · next hfree =>
      obtain ⟨d, t₁, hx, h⟩ := bind_eq_ok h
      obtain ⟨rfl, rfl⟩ := pure_eq_ok h
      exact ⟨hfree, d, hx, rfl⟩

theorem change_eq_ok {f : Dynarr → Prog (σ × Memory T) Dynarr}
    (h : (vars.change a f).run t = (.ok vars', t')) :
    ∃ d d', vars a = some d ∧ (f d).run t = (.ok d', t') ∧ vars' = vars.set a d' := by
  obtain ⟨d, t₁, hget, hrest⟩ := bind_eq_ok h
  obtain ⟨hd, rfl⟩ := get_eq_ok hget
  obtain ⟨d', t₂, hf, hset⟩ := bind_eq_ok hrest
  obtain ⟨rfl, rfl⟩ := pure_eq_ok hset
  exact ⟨d, d', hd, hf, rfl⟩

end Vars

/-- Reading an argument is quiet. -/
theorem quiet_bind {value : Value T} {vars : Vars} {f : Memory T → T × Memory T}
    (h : (value.bind E vars).run t = (.ok f, t')) : t' = t ∧ ∀ m, Quiet m (f m).2 := by
  cases value with
  | given x =>
      obtain ⟨rfl, rfl⟩ := pure_eq_ok h
      exact ⟨rfl, .refl⟩
  | copied b j =>
      obtain ⟨e, t₁, hget, hrest⟩ := bind_eq_ok h
      obtain ⟨_, rfl⟩ := Vars.get_eq_ok hget
      obtain ⟨rfl, rfl⟩ := pure_eq_ok hrest
      exact ⟨rfl, fun _ => .load⟩
  | moved b j =>
      obtain ⟨e, t₁, hget, hrest⟩ := bind_eq_ok h
      obtain ⟨_, rfl⟩ := Vars.get_eq_ok hget
      obtain ⟨rfl, rfl⟩ := pure_eq_ok hrest
      exact ⟨rfl, fun _ => Quiet.load.trans (.put _)⟩

/-- The elements there is room for, when so many are asked for: the size in bytes is a 64-bit product. -/
def room (E : ElementType T) (n : Nat) : Nat := (E.sizeof * UInt64.ofNat n).toNat / E.sizeof.toNat

/-- The operation neither grows a view nor is a move assigned over one, and a new storage has room for the
    elements there are. -/
def Op.Safe (E : ElementType T) (vars : Vars) (op : Op T) : Prop :=
  (∀ call ∈ op.grows vars, call.1.data ≠ .external ∧ call.1.size.toNat ≤ room E call.2)
  ∧ ∀ d ∈ op.overwrites vars, d.data ≠ .external

/-- **What a safe operation preserves.** -/
theorem tidy_exec {vars vars' : Vars} {op : Op T} (h : Tidy vars t.2) (hs : op.Safe E vars)
    (hrun : (op.exec E new vars).run t = (.ok vars', t')) : Tidy vars' t'.2 := by
  have hb := h.blocksOnly
  cases op with
  | default a =>
      obtain ⟨hfree, d, hx, rfl⟩ := Vars.declare_eq_ok hrun
      obtain ⟨rfl, rfl⟩ := pure_eq_ok hx
      exact h.declare hfree (handles_of_quiet (.refl _) (legal_empty _) rfl rfl)
  | sized a n =>
      obtain ⟨hfree, d, hx, rfl⟩ := Vars.declare_eq_ok hrun
      exact h.declare hfree (Dynarr.handles_resize hx (legal_empty _) (fun _ => Ptr.noConfusion) hb)
  | view a n =>
      obtain ⟨hfree, d, hx, rfl⟩ := Vars.declare_eq_ok hrun
      obtain ⟨rfl, rfl⟩ := pure_eq_ok hx
      exact h.declare hfree ⟨.refl none _, id, rfl⟩
  | pushBack a value =>
      obtain ⟨f, t₁, hvalue, hrest⟩ := bind_eq_ok hrun
      obtain ⟨rfl, hquiet⟩ := quiet_bind hvalue
      obtain ⟨d, d', hd, hf, rfl⟩ := Vars.change_eq_ok hrest
      refine h.set hd (Dynarr.handles_pushBack hquiet hf (h.legal a d hd) (fun hfull => ?_) hb)
      exact (hs.1 (d, d.doubled) (by simp [Op.grows, hd, hfull])).1
  | popBack a =>
      obtain ⟨d, d', hd, hf, rfl⟩ := Vars.change_eq_ok hrun
      exact h.set hd (Dynarr.handles_popBack hf (h.legal a d hd))
  | resize a n =>
      obtain ⟨d, d', hd, hf, rfl⟩ := Vars.change_eq_ok hrun
      refine h.set hd (Dynarr.handles_resize hf (h.legal a d hd) (fun hn => ?_) hb)
      exact (hs.1 (d, n.toNat) (by simp [Op.grows, hd, hn])).1
  | reserve a n =>
      obtain ⟨d, d', hd, hf, rfl⟩ := Vars.change_eq_ok hrun
      refine h.set hd (Dynarr.handles_grow_or hf (h.legal a d hd) (fun hn => ?_) hb)
      exact (hs.1 (d, n.toNat) (by simp [Op.grows, hd, hn])).1
  | clear a =>
      obtain ⟨d, d', hd, hf, rfl⟩ := Vars.change_eq_ok hrun
      exact h.set hd (Dynarr.handles_clear hf (h.legal a d hd)).2
  | copy a b =>
      obtain ⟨e, t₁, hget, hrest⟩ := bind_eq_ok hrun
      obtain ⟨he, rfl⟩ := Vars.get_eq_ok hget
      obtain ⟨hfree, d, hx, rfl⟩ := Vars.declare_eq_ok hrest
      exact h.declare hfree (Dynarr.handles_copyInto hx (legal_empty _) (fun _ => Ptr.noConfusion) hb)
  | move a b =>
      obtain ⟨e, t₁, hget, hrest⟩ := bind_eq_ok hrun
      obtain ⟨he, rfl⟩ := Vars.get_eq_ok hget
      obtain ⟨vars₁, t₂, hdeclare, hset⟩ := bind_eq_ok hrest
      obtain ⟨hfree, d, hx, rfl⟩ := Vars.declare_eq_ok hdeclare
      obtain ⟨rfl, rfl⟩ := pure_eq_ok hx
      obtain ⟨rfl, rfl⟩ := pure_eq_ok hset
      exact h.hand_over (by rw [hfree]; rfl) he
  | assignCopy a b =>
      obtain ⟨e, t₁, hget, hrest⟩ := bind_eq_ok hrun
      obtain ⟨he, rfl⟩ := Vars.get_eq_ok hget
      obtain ⟨d, d', hd, hf, rfl⟩ := Vars.change_eq_ok hrest
      by_cases hab : a = b
      · rw [if_pos hab] at hf
        obtain ⟨rfl, rfl⟩ := pure_eq_ok hf
        exact h.set hd (handles_of_quiet (.refl _) (h.legal a d' hd) rfl rfl)
      · rw [if_neg hab] at hf
        obtain ⟨d₁, t₂, hclear, hcopy⟩ := bind_eq_ok hf
        obtain ⟨rfl, hhandles⟩ := Dynarr.handles_clear hclear (h.legal a d hd)
        refine h.set hd (hhandles.trans (Dynarr.handles_copyInto hcopy hhandles.legal (fun hn => ?_)
          (hhandles.blocksOnly hb)))
        have hn' : d.capacity < e.size := hn
        exact (hs.1 ({ d with size := 0 }, e.size.toNat) (by simp [Op.grows, hd, he, hab, hn'])).1
  | assignMove a b =>
      obtain ⟨e, t₁, hget, hrest⟩ := bind_eq_ok hrun
      obtain ⟨he, rfl⟩ := Vars.get_eq_ok hget
      obtain ⟨d, t₂, hget', hassigned⟩ := bind_eq_ok hrest
      obtain ⟨hd, rfl⟩ := Vars.get_eq_ok hget'
      by_cases hab : a = b
      · rw [if_pos hab] at hassigned
        obtain ⟨rfl, rfl⟩ := pure_eq_ok hassigned
        exact h
      · rw [if_neg hab] at hassigned
        obtain ⟨r, t₃, hassign, hset⟩ := bind_eq_ok hassigned
        obtain ⟨rfl, hhandles⟩ := Dynarr.handles_assignMove hassign (h.legal a d hd)
          (hs.2 d (by simp [Op.overwrites, hd, hab]))
        obtain ⟨rfl, rfl⟩ := pure_eq_ok hset
        -- the array is empty in between
        have hover := (h.set hd hhandles).hand_over (a := a) (b := b)
          (by simp only [Vars.set, Function.update_self]; rfl)
          (by simp only [Vars.set, Function.update_of_ne (Ne.symm hab)]; exact he)
        simpa only [Vars.set, Function.update_idem] using hover
  | destruct a =>
      obtain ⟨d, t₁, hget, hrest⟩ := bind_eq_ok hrun
      obtain ⟨hd, rfl⟩ := Vars.get_eq_ok hget
      obtain ⟨u, t₂, hdestruct, hset⟩ := bind_eq_ok hrest
      obtain ⟨rfl, rfl⟩ := pure_eq_ok hset
      exact h.update (by rw [hd]; rfl) (Dynarr.handles_destruct hdestruct (h.legal a d hd)) (Or.inr ⟨rfl, rfl⟩)

/-! ## What `grow` writes -/

/-- `grow` writes no element behind the end of the storage it allocates. -/
def GrowsInside (E : ElementType T) (new : Nat → Prog σ Unit) (d : Dynarr) (n : Nat) : Prop :=
  ∀ t d' t', (d.grow E new (UInt64.ofNat n)).run t = (.ok d', t') →
    ∀ i, t'.2.notes.count (.outside d'.data i) = t.2.notes.count (.outside d'.data i)

/-- The storage has so many elements, and none behind its end was written since `m₀`. -/
structure Within (q : Ptr) (n : Nat) (m₀ m : Memory T) : Prop where
  length : (m.slots q).length = n
  outside : ∀ i, m.notes.count (.outside q i) = m₀.notes.count (.outside q i)

namespace Within

variable {p q : Ptr} {i n : Nat} {m₀ : Memory T}

theorem note (h : Within q n m₀ m) {x : Note} (hx : ∀ i, x ≠ .outside q i) : Within q n m₀ (m.note x) := by
  refine ⟨?_, fun i => ?_⟩
  · have hslots : (m.note x).slots q = m.slots q := by cases q <;> rfl
    rw [hslots, h.length]
  · simp only [Memory.note, List.count_append, List.count_singleton, beq_iff_eq, if_neg (hx i), Nat.add_zero]
    exact h.outside i

theorem put (h : Within q n m₀ m) (hi : i < n) (x : Slot T) : Within q n m₀ (m.put p i x) := by
  unfold Memory.put
  split
  · refine ⟨?_, fun j => by rw [Memory.notes_setSlots, h.outside]⟩
    by_cases hqp : q = p
    · subst hqp
      rw [Memory.slots_setSlots_of_length List.length_set, List.length_set, h.length]
    · rw [Memory.slots_setSlots_ne hqp, h.length]
  · next hout =>
      refine h.note fun j he => hout ?_
      obtain ⟨rfl, _⟩ := Note.outside.inj he
      rwa [h.length]

theorem construct (h : Within q n m₀ m) (hi : i < n) (x : T) : Within q n m₀ (m.construct p i x) := by
  unfold Memory.construct
  refine put ?_ hi _
  split
  · exact h.note fun _ => Note.noConfusion
  · exact h

theorem load (h : Within q n m₀ m) : Within q n m₀ (m.load E p i).2 := by
  unfold Memory.load
  split
  · exact h
  · exact h.note fun _ => Note.noConfusion

theorem destroy (h : Within q n m₀ m) (hi : i < n) : Within q n m₀ (m.destroy p i) := by
  unfold Memory.destroy
  split
  · exact h.put hi _
  · exact h.note fun _ => Note.noConfusion

theorem delete (h : Within q n m₀ m) : Within q n m₀ (m.delete p) := by
  unfold Memory.delete
  split
  · exact h
  · exact h.note fun _ => Note.noConfusion

end Within

theorem growsInside_of_room {n : Nat} (hroom : d.size.toNat ≤ room E n) : GrowsInside E new d n := by
  intro t d' t' hrun
  obtain ⟨rfl, he⟩ := Dynarr.grow_eq_ok hrun
  have hstart : Within (.heap t.2.blocks.length) (room E n) t.2 (t.2.allocate (room E n)).2 :=
    ⟨by simp [Memory.allocate, Memory.slots], fun _ => rfl⟩
  have hmoved := Memory.each_induct (f := fun m i => m.moveTo E d.data (.heap t.2.blocks.length) i) (i := 0)
    (j := d.size.toNat) (fun m k hk hm =>
      (hm.load.put (Nat.lt_of_lt_of_le hk hroom) _).construct (Nat.lt_of_lt_of_le hk hroom) _) hstart
  have hdestroyed := Memory.each_induct (f := fun m i => m.destroy d.data i) (i := 0) (j := d.size.toNat)
    (fun m k hk hm => hm.destroy (Nat.lt_of_lt_of_le hk hroom)) hmoved
  rw [he]
  exact hdestroyed.delete.outside

/-! ## Runs -/

/-- What was deleted are blocks of `operator new`, and none of them twice. -/
structure Owned (m : Memory T) : Prop where
  blocks : ∀ p, .deleted p ∈ m.notes → ∃ k < m.blocks.length, p = .heap k
  once : ∀ p, m.notes.count (.deleted p) ≤ 1

theorem Tidy.owned {vars : Vars} (h : Tidy vars m) : Owned m := by
  refine ⟨h.blocksOnly, fun p => ?_⟩
  by_cases hp : .deleted p ∈ m.notes
  · obtain ⟨k, hk, rfl⟩ := h.blocksOnly p hp
    rcases h.accounted.settled k hk with ⟨a, ha⟩ | hgone
    · obtain ⟨d, hd, hblock⟩ := Option.bind_eq_some_iff.mp ha
      have hzero := ((h.legal a d hd).heap (block_eq_some.mp hblock)).2
      exact Nat.le_trans (Nat.le_of_eq hzero) (Nat.zero_le 1)
    · exact hgone
  · exact Nat.le_trans (Nat.le_of_eq (List.count_eq_zero.mpr hp)) (Nat.zero_le 1)

theorem tidy_boot (s : σ) (external : List (Slot T)) :
    Tidy (fun _ => none) (Machine.boot s external).state.2 :=
  ⟨fun _ _ he => (nomatch he), ⟨fun _ _ he => (nomatch he), fun _ _ _ he => (nomatch he),
    fun _ hk => absurd hk (Nat.not_lt_zero _)⟩, fun _ hp => absurd hp List.not_mem_nil⟩

/-- A safe operation that comes back. -/
def SafeStep (E : ElementType T) (new : Nat → Prog σ Unit) (w : Machine T σ) (op : Op T) (w' : Machine T σ) : Prop :=
  w.step E new op = some w' ∧ op.Safe E w.vars

/-- **In a run of safe operations** nothing is deleted but blocks of `operator new`, each of them once at
    most, and no `grow` writes behind the end of its storage. -/
theorem owned_of_run {s : σ} {external : List (Slot T)} {ops : List (Op T)} {w : Machine T σ}
    (h : Run (SafeStep E new) (.boot s external) ops w) :
    Owned w.state.2 ∧ ∀ op w', SafeStep E new w op w' → ∀ call ∈ op.grows w.vars, GrowsInside E new call.1 call.2 := by
  have ht : Tidy w.vars w.state.2 := by
    refine h.invariant (I := fun w => Tidy w.vars w.state.2) (fun w op w' hs hi => ?_) (tidy_boot s external)
    exact tidy_exec hi hs.2 (Machine.step_eq_some.mp hs.1)
  exact ⟨ht.owned, fun op w' hs call hcall => growsInside_of_room (hs.2.1 call hcall).2⟩

instance (op : Op T) (vars : Vars) : Decidable (op.Safe E vars) :=
  inferInstanceAs (Decidable ((∀ call ∈ op.grows vars, call.1.data ≠ .external ∧ call.1.size.toNat ≤ room E call.2)
    ∧ ∀ d ∈ op.overwrites vars, d.data ≠ .external))

/-- The step, where it is safe. -/
def safeStep (E : ElementType T) (new : Nat → Prog σ Unit) (w : Machine T σ) (op : Op T) : Option (Machine T σ) :=
  if op.Safe E w.vars then w.step E new op else none

theorem safeStep_sound {w w' : Machine T σ} {op : Op T} (h : safeStep E new w op = some w') :
    SafeStep E new w op w' := by
  obtain ⟨hs, h⟩ := Option.ite_none_right_eq_some.mp h
  exact ⟨h, hs⟩

/-- The caller's memory with one live byte. -/
def oneByte : List (Slot UInt8) := [object 5]

/-- A view that is cleared, and then takes over the storage of an array. -/
def viewCleared : List (Op UInt8) :=
  [.view 0 1, .clear 0, .sized 1 2, .pushBack 1 (.given 7), .copy 2 0, .assignMove 1 0, .destruct 0, .destruct 1]

theorem owned_viewCleared : ∃ w : Machine UInt8 Unit,
    w.state.2.notes = [.deleted (.heap 0), .deleted (.heap 1)] ∧ Owned w.state.2 := by
  have hcalls : (viewCleared.foldlM (safeStep byteType fun _ => pure ()) (.boot () oneByte)).map
      (fun w => w.state.2.notes) = some [.deleted (.heap 0), .deleted (.heap 1)] := by decide +kernel
  obtain ⟨w, hw, hnotes⟩ := Option.map_eq_some_iff.mp hcalls
  exact ⟨w, hnotes, (owned_of_run (Run.of_foldlM (fun _ _ _ => safeStep_sound) .start hw)).1⟩

/-- **A view that grows** gives the caller's memory to `operator delete`. -/
theorem not_owned_view :
    ¬ ∀ (T σ : Type) (E : ElementType T) (new : Nat → Prog σ Unit) (s : σ) (external : List (Slot T))
      (ops : List (Op T)) (w : Machine T σ), 0 < E.sizeof →
      Run (fun w op w' => w.step E new op = some w') (.boot s external) ops w →
      Owned w.state.2 ∧ ∀ op w', w.step E new op = some w' → ∀ call ∈ op.grows w.vars,
        GrowsInside E new call.1 call.2 := by
  intro hall
  have hcalls : (([.view 0 1, .pushBack 0 (.given 7)] : List (Op UInt8)).foldlM
      (Machine.step byteType fun _ => pure ()) (.boot () oneByte)).map
        (fun w => decide (.deleted .external ∈ w.state.2.notes)) = some true := by decide +kernel
  obtain ⟨w, hw, hend⟩ := Option.map_eq_some_iff.mp hcalls
  have hrun := Run.of_foldlM (fun _ _ _ h => h) .start hw
  obtain ⟨k, _, he⟩ := (hall _ _ _ _ _ _ _ w (by decide) hrun).1.blocks .external (of_decide_eq_true hend)
  cases he

end AlopexOS.Arr
