import AlopexOS.Arr.Contents
import AlopexOS.Lib.Run

/-!
# `Arr.Refinement` — arrays are lists (`src/include/arr.hpp`)

A program with owned arrays and the same program with lists take their steps together. What is common to
both is `Refines`: every array holds its list, and every block has one array or was given back.

## Contents
- **`Refines`** when one array changes, and when a block changes hands.
- **Operations**, one lemma for each kind.
- **Runs.**
-/

namespace AlopexOS.Arr

open Prog Ownership

variable {T σ : Type} {E : ElementType T} {new : Nat → Prog σ Unit} {G : Prop}

/-- The arrays of a program hold the lists of another one. -/
structure Refines (vars : Vars) (lists : Lists T) (m : Memory T) : Prop where
  contains : ∀ a, Option.Rel (Contains m) (vars a) (lists a)
  accounted : Accounted Gone (fun a => (vars a).bind Dynarr.block) m.stock
  clean : m.Clean

variable {m m' : Memory T} {d d' e : Dynarr} {xs ys : List T} {t : σ × Memory T}

/-! ## One array changes -/

namespace Vars

variable {vars : Vars} {a b : Nat}

theorem block_update (vars : Vars) {v : Option Dynarr} {own : Option Nat} (hv : v.bind Dynarr.block = own) :
    (fun b => (Function.update vars a v b).bind Dynarr.block)
      = Function.update (fun b => (vars b).bind Dynarr.block) a own := by
  rw [← hv]
  exact funext fun b => Function.apply_update (fun _ => (Option.bind · Dynarr.block)) vars a v b

theorem block_hand_over (vars : Vars) (hb : vars b = some e) :
    (fun c => ((vars.set a e).set b .empty c).bind Dynarr.block)
      = Function.update (Function.update (fun c => (vars c).bind Dynarr.block) a
          ((vars b).bind Dynarr.block)) b none := by
  rw [hb, ← block_update vars rfl]
  exact block_update (vars.set a e) rfl

end Vars

/-- The block of one array is not that of another. -/
def Apart (d e : Dynarr) : Prop := ∀ k, e.block = some k → d.block ≠ some k

theorem apart_empty : Apart .empty e := fun _ _ he => Ptr.noConfusion (block_eq_some.mp he)

/-- Another array works, and this one holds what it held. -/
theorem Contains.frame (h : Contains m e ys) (hturn : Turns d m d' m') (hapart : Apart d e) :
    Contains m' e ys ∧ Apart d' e := by
  have hlt : ∀ k, e.block = some k → k < m.blocks.length := by
    intro k hk
    have hdata := block_eq_some.mp hk
    obtain ⟨_, l, hl, hd, _⟩ := h.own.resolve_left (by rw [hdata]; exact Ptr.noConfusion)
    rwa [Ptr.heap.inj (hdata.symm.trans hd)]
  have hframe := fun k hk => hturn.works.frame k (hlt k hk) (hapart k hk)
  refine ⟨⟨h.size, ?_, ?_⟩, fun k hk => (hframe k hk).1⟩
  · rcases h.own with hnull | ⟨_, k, _, hdata, _⟩
    · have hslots := h.storage
      rw [hnull] at hslots ⊢
      exact hslots
    · have hstate := (hframe k (block_eq_some.mpr hdata)).2
      have hslots : m'.slots (.heap k) = m.slots (.heap k) := congrArg Prod.fst hstate
      rw [hdata, hslots, ← hdata]
      exact h.storage
  · refine h.own.imp_right ?_
    rintro ⟨hpos, k, hk, hdata, hkept⟩
    have hstate := (hframe k (block_eq_some.mpr hdata)).2
    have hcount : m'.notes.count (.deleted (.heap k)) = m.notes.count (.deleted (.heap k)) :=
      congrArg Prod.snd hstate
    refine ⟨hpos, k, Nat.lt_of_lt_of_le hk hturn.works.count_le, hdata, ?_⟩
    rw [← List.count_eq_zero, hcount]
    exact List.count_eq_zero.mpr hkept

namespace Refines

variable {vars : Vars} {lists lists' : Lists T} {a b : Nat}

theorem array (h : Refines vars lists m) (hl : lists a = some xs) :
    ∃ d, vars a = some d ∧ Contains m d xs := by
  have hrel := h.contains a
  rw [hl] at hrel
  generalize vars a = v at hrel
  cases hrel with
  | some hd => exact ⟨_, rfl, hd⟩

theorem undeclared (h : Refines vars lists m) (hl : lists a = none) : vars a = none := by
  have hrel := h.contains a
  rw [hl] at hrel
  generalize vars a = v at hrel
  cases hrel with
  | none => rfl

theorem apart (h : Refines vars lists m) (hne : a ≠ b) (ha : vars a = some d) (hb : vars b = some e) :
    Apart d e := by
  intro k he hd
  exact hne (h.accounted.alone a b k (by simp only [ha, Option.bind_some, hd])
    (by simp only [hb, Option.bind_some, he]))

/-- One variable changes, by what its array did. -/
theorem update (h : Refines vars lists m) (hd : (vars a).bind Dynarr.block = d.block)
    (hturn : Turns d m d' m') {v : Option Dynarr} {l : Option (List T)}
    (hv : v.bind Dynarr.block = d'.block) (hrel : Option.Rel (Contains m') v l) :
    Refines (Function.update vars a v) (Function.update lists a l) m' := by
  refine ⟨fun b => ?_, ?_, hturn.clean h.clean⟩
  · by_cases hba : b = a
    · rw [hba, Function.update_self, Function.update_self]
      exact hrel
    · rw [Function.update_of_ne hba, Function.update_of_ne hba]
      have hrel' := h.contains b
      generalize hb : vars b = v' at hrel'
      generalize lists b = l' at hrel'
      cases hrel' with
      | none => exact .none
      | some he =>
          refine .some (he.frame hturn fun k hk hdk => hba ?_).1
          exact h.accounted.alone b a k (by simp only [hb, Option.bind_some, hk]) (hd.trans hdk)
  · rw [vars.block_update hv]
    refine h.accounted.works (by rw [hd]; exact hturn.works) fun k hk => ?_
    rw [← hv] at hk
    cases hrel with
    | none => cases hk
    | some hc =>
        have hdata := block_eq_some.mp hk
        obtain ⟨_, l, hl, hd, _⟩ := hc.own.resolve_left (by rw [hdata]; exact Ptr.noConfusion)
        rwa [Ptr.heap.inj (hdata.symm.trans hd)]

/-- A variable whose array was led to another list. -/
theorem set (h : Refines vars lists m) (ha : vars a = some d) {t : σ × Memory T}
    (hleads : Leads d m xs d' t) : Refines (vars.set a d') (lists.set a xs) t.2 :=
  h.update (by rw [ha, Option.bind_some]) hleads.1 (by rw [Option.bind_some]) (.some hleads.2)

/-- **The storage of one array becomes that of another**, which had none. -/
theorem hand_over (h : Refines vars lists m) (ha : (vars a).bind Dynarr.block = none)
    (hb : vars b = some e) (hl : lists b = some ys) :
    Refines ((vars.set a e).set b .empty) ((lists.set a ys).set b []) m := by
  obtain ⟨e', he', hcontains⟩ := h.array hl
  obtain rfl : e' = e := Option.some.inj (he'.symm.trans hb)
  refine ⟨fun c => ?_, ?_, h.clean⟩
  · simp only [Vars.set, Lists.set]
    by_cases hcb : c = b
    · rw [hcb, Function.update_self, Function.update_self]
      exact .some (.empty m)
    · rw [Function.update_of_ne hcb, Function.update_of_ne hcb]
      by_cases hca : c = a
      · rw [hca, Function.update_self, Function.update_self]
        exact .some hcontains
      · rw [Function.update_of_ne hca, Function.update_of_ne hca]
        exact h.contains c
  · rw [vars.block_hand_over hb]
    exact h.accounted.hand_over ha

end Refines

/-! ## Operations -/

/-- No size in bytes wraps in the operation. -/
def Op.Fits (E : ElementType T) (vars : Vars) (op : Op T) : Prop :=
  ∀ call ∈ op.grows vars, Arr.Fits E call.2

variable {vars : Vars} {lists lists' : Lists T} {a b : Nat}

/-- The outcome of an operation. -/
def Refined (lists : Lists T) (vars : Vars) (t : σ × Memory T) : Prop := Refines vars lists t.2

theorem get_bind {α : Type} (hv : vars a = some d) (f : Dynarr → Prog (σ × Memory T) α) :
    vars.get a >>= f = f d := by
  rw [Vars.get, hv]
  exact pure_bind d f

theorem runs_declare (h : Refines vars lists t.2) {x : Prog (σ × Memory T) Dynarr}
    (hl : lists.declare a xs = some lists') (hrun : Runs G x t (Leads .empty t.2 xs)) :
    Runs G (vars.declare a x) t (Refined lists') := by
  unfold Lists.declare at hl
  split at hl
  · cases hl
  · next hnone =>
      obtain rfl := Option.some.inj hl
      have hfree := h.undeclared hnone
      rw [Vars.declare, hfree]
      refine Runs.bind hrun fun d t' hleads => Runs.pure ?_
      exact h.update (by rw [hfree]; rfl) hleads.1 rfl (.some hleads.2)

theorem runs_change (h : Refines vars lists t.2) {f : List T → List T}
    {g : Dynarr → Prog (σ × Memory T) Dynarr} (hl : lists.change a f = some lists')
    (hrun : ∀ d xs, vars a = some d → lists a = some xs → Contains t.2 d xs → Runs G (g d) t (Leads d t.2 (f xs))) :
    Runs G (vars.change a g) t (Refined lists') := by
  obtain ⟨xs, hxs, hl⟩ := Option.bind_eq_some_iff.mp hl
  obtain rfl := Option.some.inj hl
  obtain ⟨d, hd, hcontains⟩ := h.array hxs
  rw [Vars.change, get_bind hd]
  exact Runs.bind (hrun _ xs hd hxs hcontains) fun d' t' hleads => Runs.pure (h.set hd hleads)

theorem resized_nil (E : ElementType T) (n : Nat) : resized E n [] = List.replicate n E.init := by
  rw [resized, List.take_nil, List.nil_append, List.length_nil, Nat.sub_zero]

/-- What both copies do to an array without contents. -/
theorem runs_copyInto (hE : 0 < E.sizeof) (hnew : ∀ n s, Runs G (new n) s fun _ _ => True)
    (h : Contains t.2 d []) (hclean : t.2.Clean) (he : Contains t.2 e ys) (hapart : Apart d e)
    (hfits : d.capacity < e.size → Fits E e.size.toNat) :
    Runs G (d.resize E new e.size >>= fun d => d.copyFrom E e) t (Leads d t.2 ys) := by
  refine Runs.bind (Dynarr.runs_resize hE hnew h hclean hfits) fun d₁ t₁ hleads => ?_
  obtain ⟨he₁, hapart₁⟩ := he.frame hleads.1 hapart
  have hlen : (resized E e.size.toNat []).length = ys.length := by
    rw [resized_nil, List.length_replicate, he.size]
  refine (Dynarr.runs_copyFrom hleads.2 he₁ hlen ?_).imp fun d₂ t₂ h₂ => hleads.trans h₂
  rcases he₁.own with hnull | ⟨_, k, _, hdata, _⟩
  · -- an array without storage is empty
    obtain ⟨raw, hslots, _, _⟩ := he₁.storage
    rw [hnull] at hslots
    exact Or.inr (List.map_eq_nil_iff.mp (List.append_eq_nil_iff.mp hslots.symm).1)
  · rw [hdata]
    exact Or.inl fun hd => hapart₁ k (block_eq_some.mpr hdata) (block_eq_some.mpr hd)

/-- The argument of a `push_back`, read through its reference after another array has worked. -/
theorem runs_bind (h : Refines vars lists t.2) {value : Value T} {x : T}
    (hl : value.onLists E a lists = some (x, lists')) :
    Runs G (value.bind E vars) t (fun f t' => t' = t ∧ lists' a = lists a ∧
      ∀ (vars₁ : Vars) (m : Memory T), (∀ b, b ≠ a → vars₁ b = vars b) → Refines vars₁ lists m →
        (f m).1 = x ∧ Refines vars₁ lists' (f m).2) := by
  cases value with
  | given y =>
      obtain ⟨rfl, rfl⟩ := Prod.mk.inj (Option.some.inj hl)
      exact Runs.pure ⟨rfl, rfl, fun _ _ _ hr => ⟨rfl, hr⟩⟩
  | copied b j =>
      obtain ⟨ys, hys, hl⟩ := Option.bind_eq_some_iff.mp hl
      obtain ⟨y, hy, hl⟩ := Option.bind_eq_some_iff.mp hl
      by_cases hba : b = a
      · rw [if_pos hba] at hl
        cases hl
      · rw [if_neg hba] at hl
        obtain ⟨rfl, rfl⟩ := Prod.mk.inj (Option.some.inj hl)
        obtain ⟨e, he, _⟩ := h.array hys
        rw [Value.bind, get_bind he]
        refine Runs.pure ⟨rfl, rfl, fun vars₁ m hvars hr => ?_⟩
        obtain ⟨e₁, he₁, hcontains⟩ := hr.array hys
        obtain rfl := Option.some.inj (he₁.symm.trans ((hvars b hba).trans he))
        simp only [Memory.load_eq (hcontains.getElem? hy)]
        exact ⟨trivial, hr⟩
  | moved b j =>
      obtain ⟨ys, hys, hl⟩ := Option.bind_eq_some_iff.mp hl
      obtain ⟨y, hy, hl⟩ := Option.bind_eq_some_iff.mp hl
      by_cases hba : b = a
      · rw [if_pos hba] at hl
        cases hl
      · rw [if_neg hba] at hl
        obtain ⟨rfl, rfl⟩ := Prod.mk.inj (Option.some.inj hl)
        obtain ⟨e, he, _⟩ := h.array hys
        rw [Value.bind, get_bind he]
        refine Runs.pure ⟨rfl, Function.update_of_ne (Ne.symm hba) _ _, fun vars₁ m hvars hr => ?_⟩
        obtain ⟨e₁, he₁, hcontains⟩ := hr.array hys
        obtain rfl := Option.some.inj (he₁.symm.trans ((hvars b hba).trans he))
        have hleads : Leads e₁ m (ys.set j (E.moved y)) e₁ (t.1, m.put e₁.data j (object (E.moved y))) :=
          hcontains.leads_put (List.getElem?_eq_some_iff.mp hy).1 _
        have hset := hr.set he₁ hleads
        have hsame : vars₁.set b e₁ = vars₁ := by rw [Vars.set, ← he₁, Function.update_eq_self]
        simp only [Memory.load_eq (hcontains.getElem? hy)]
        rw [hsame] at hset
        exact ⟨trivial, hset⟩

theorem runs_pushBack (hE : 0 < E.sizeof) (hnew : ∀ n s, Runs G (new n) s fun _ _ => True)
    (h : Refines vars lists t.2) {value : Value T} (hl : (Op.pushBack a value).onLists E lists = some lists')
    (hfits : (Op.pushBack a value).Fits E vars) :
    Runs G ((Op.pushBack a value).exec E new vars) t (Refined lists') := by
  obtain ⟨⟨x, lists₁⟩, hvalue, hl⟩ := Option.bind_eq_some_iff.mp hl
  obtain ⟨xs, hxs, hl⟩ := Option.bind_eq_some_iff.mp hl
  obtain rfl := Option.some.inj hl
  refine Runs.bind (runs_bind h hvalue) ?_
  rintro f t' ⟨ht', hsame, hread⟩
  subst ht'
  have hxs₀ : lists a = some xs := hsame.symm.trans hxs
  obtain ⟨d, hd, hcontains⟩ := h.array hxs₀
  rw [Vars.change, get_bind hd, Dynarr.pushBack_eq, bind_assoc]
  refine Runs.bind (Dynarr.runs_room hE hnew hcontains h.clean fun hfull => ?_) ?_
  · exact hfits (d, d.doubled) (by simp [Op.grows, hd, hfull])
  · rintro d₁ t₁ ⟨hroom, hleads⟩
    -- the array has room now, and the argument is read
    have hgrown : Refines (vars.set a d₁) lists t₁.2 := by
      have hset := h.set hd hleads
      rwa [Lists.set, ← hxs₀, Function.update_eq_self] at hset
    obtain ⟨hx, hr⟩ := hread (vars.set a d₁) t₁.2 (fun b hb => Function.update_of_ne hb _ _) hgrown
    obtain ⟨d₂, hd₂, hcontains₂⟩ := hr.array hxs
    have hself : vars.set a d₁ a = some d₁ := Function.update_self _ _ _
    obtain rfl : d₁ = d₂ := Option.some.inj (hself.symm.trans hd₂)
    have hleads₂ : Leads d₁ (f t₁.2).2 (xs ++ [x]) { d₁ with size := d₁.size + 1 }
        (t₁.1, (f t₁.2).2.construct d₁.data d₁.size.toNat (f t₁.2).1) := by
      rw [hx]
      exact Dynarr.leads_constructed hcontains₂ hroom x
    have hset := hr.set hd₂ hleads₂
    have htwice : (vars.set a d₁).set a { d₁ with size := d₁.size + 1 }
        = vars.set a { d₁ with size := d₁.size + 1 } := Function.update_idem _ _ _
    rw [htwice] at hset
    have hrun : Runs G (touch fun m => ({ d₁ with size := d₁.size + 1 },
        (f m).2.construct d₁.data d₁.size.toNat (f m).1)) t₁ fun d' t' =>
          Refines (vars.set a d') (lists₁.set a (xs ++ [x])) t'.2 := runs_touch hset
    exact Runs.bind hrun fun d' t' hq => Runs.pure hq

/-- **An operation** refines the one on lists, and comes back when allocations do. -/
theorem runs_exec (hE : 0 < E.sizeof) (hnew : ∀ n s, Runs G (new n) s fun _ _ => True)
    (h : Refines vars lists t.2) {op : Op T} (hl : op.onLists E lists = some lists') (hfits : op.Fits E vars) :
    Runs G (op.exec E new vars) t (Refined lists') := by
  cases op with
  | default a => exact runs_declare h hl (Runs.pure ⟨.refl _ _, .empty _⟩)
  | sized a n =>
      have hrun : Runs G (Dynarr.empty.resize E new n) t (Leads .empty t.2 (resized E n.toNat [])) :=
        Dynarr.runs_resize hE hnew (.empty _) h.clean fun hn => hfits (.empty, n.toNat) (if_pos hn)
      rw [resized_nil] at hrun
      exact runs_declare h hl hrun
  | view a n => cases hl
  | pushBack a value => exact runs_pushBack hE hnew h hl hfits
  | popBack a => exact runs_change h hl fun d xs _ _ hd => Dynarr.runs_popBack hd
  | resize a n =>
      refine runs_change h hl fun d xs hv _ hd => Dynarr.runs_resize hE hnew hd h.clean fun hn => ?_
      exact hfits (d, n.toNat) (by simp [Op.grows, hv, hn])
  | reserve a n =>
      refine runs_change h hl fun d xs hv _ hd => Dynarr.runs_reserve hE hnew hd h.clean fun hn => ?_
      exact hfits (d, n.toNat) (by simp [Op.grows, hv, hn])
  | clear a => exact runs_change h hl fun d xs _ _ hd => (Dynarr.runs_clear hd).imp fun _ _ hq => hq.2
  | copy a b =>
      obtain ⟨ys, hys, hl⟩ := Option.bind_eq_some_iff.mp hl
      obtain ⟨e, he, hcontains⟩ := h.array hys
      rw [Op.exec, get_bind he]
      refine runs_declare h hl (runs_copyInto hE hnew (.empty _) h.clean hcontains apart_empty fun hn => ?_)
      have hn' : 0 < e.size := hn
      exact hfits (.empty, e.size.toNat) (by simp [Op.grows, he, hn'])
  | move a b =>
      obtain ⟨ys, hys, hl⟩ := Option.bind_eq_some_iff.mp hl
      obtain ⟨lists₁, hdeclare, hl⟩ := Option.bind_eq_some_iff.mp hl
      obtain rfl := Option.some.inj hl
      obtain ⟨e, he, hcontains⟩ := h.array hys
      rw [Op.exec, get_bind he]
      unfold Lists.declare at hdeclare
      split at hdeclare
      · cases hdeclare
      · next hnone =>
          obtain rfl := Option.some.inj hdeclare
          have hfree := h.undeclared hnone
          rw [Vars.declare, hfree]
          exact Runs.pure (h.hand_over (by rw [hfree]; rfl) he hys)
  | assignCopy a b =>
      obtain ⟨ys, hys, hl⟩ := Option.bind_eq_some_iff.mp hl
      obtain ⟨e, he, hcontains⟩ := h.array hys
      rw [Op.exec, get_bind he]
      refine runs_change h hl fun d xs hv hxs hd => ?_
      by_cases hab : a = b
      · subst hab
        rw [if_pos rfl]
        obtain rfl := Option.some.inj (hxs.symm.trans hys)
        exact Runs.pure ⟨.refl _ _, hd⟩
      · rw [if_neg hab]
        refine Runs.bind (Dynarr.runs_clear hd) ?_
        rintro _ t₁ ⟨rfl, hleads⟩
        obtain ⟨he₁, hapart⟩ := hcontains.frame hleads.1 (h.apart hab hv he)
        refine (runs_copyInto hE hnew hleads.2 (hleads.1.clean h.clean) he₁ hapart fun hn => ?_).imp
          fun _ _ h₂ => hleads.trans h₂
        have hn' : d.capacity < e.size := hn
        exact hfits ({ d with size := 0 }, e.size.toNat) (by simp [Op.grows, hv, he, hab, hn'])
  | assignMove a b =>
      obtain ⟨ys, hys, hl⟩ := Option.bind_eq_some_iff.mp hl
      obtain ⟨lists₁, hchange, hl⟩ := Option.bind_eq_some_iff.mp hl
      obtain ⟨xs, hxs, hchange⟩ := Option.bind_eq_some_iff.mp hchange
      obtain rfl := Option.some.inj hchange
      obtain rfl := Option.some.inj hl
      obtain ⟨e, he, hcontains⟩ := h.array hys
      obtain ⟨d, hd, hcontains'⟩ := h.array hxs
      rw [Op.exec, get_bind he, get_bind hd]
      by_cases hab : a = b
      · rw [if_pos hab, if_pos hab]
        exact Runs.pure h
      · rw [if_neg hab, if_neg hab]
        refine Runs.bind (Dynarr.runs_assignMove hcontains') ?_
        rintro _ t₁ ⟨rfl, hleads⟩
        -- the array is empty in between
        have hset := h.set hd hleads
        have hover := hset.hand_over (a := a) (b := b) (by simp only [Vars.set, Function.update_self]; rfl)
          (by simp only [Vars.set, Function.update_of_ne (Ne.symm hab)]; exact he)
          (by simp only [Lists.set, Function.update_of_ne (Ne.symm hab)]; exact hys)
        simp only [Vars.set, Lists.set, Function.update_idem] at hover
        exact Runs.pure hover
  | destruct a =>
      obtain ⟨xs, hxs, hl⟩ := Option.bind_eq_some_iff.mp hl
      obtain rfl := Option.some.inj hl
      obtain ⟨d, hd, hcontains⟩ := h.array hxs
      rw [Op.exec, get_bind hd]
      refine Runs.bind (Dynarr.runs_destruct hcontains) fun _ t₁ hleads => Runs.pure ?_
      exact h.update (by rw [hd]; rfl) hleads.1 rfl .none

/-! ## Runs -/

/-- Reading the elements one after the other. -/
theorem Contains.elems (h : Contains t.2 d xs) : (d.elems E).run t = (.ok xs, t) := by
  have hfold : ∀ n ≤ xs.length, (List.range n).foldl (fun (r : List T × Memory T) i =>
      (r.1 ++ [(r.2.load E d.data i).1], (r.2.load E d.data i).2)) ([], t.2) = (xs.take n, t.2) := by
    intro n
    induction n with
    | zero => exact fun _ => rfl
    | succ n ih =>
        intro hn
        have hx : xs[n]? = some xs[n] := List.getElem?_eq_getElem hn
        rw [List.range_succ, List.foldl_append, ih (Nat.le_of_succ_le hn), List.foldl_cons, List.foldl_nil,
          Memory.load_eq (h.getElem? hx), List.take_append_getElem hn]
  have hall := hfold xs.length (Nat.le_refl _)
  rw [List.take_length, ← h.size] at hall
  simp only [Dynarr.elems, touch, hall]

/-- A block is held by one array, or was released once with no object left in it. -/
theorem Refines.block (h : Refines vars lists m) {k : Nat} (hk : k < m.blocks.length) :
    (∃! a, (vars a).bind Dynarr.block = some k) ∧ m.notes.count (.deleted (.heap k)) = 0
    ∨ (∀ a, (vars a).bind Dynarr.block ≠ some k) ∧ m.notes.count (.deleted (.heap k)) = 1
      ∧ ∀ s ∈ m.slots (.heap k), s.live = false := by
  by_cases hheld : ∃ a, (vars a).bind Dynarr.block = some k
  · obtain ⟨a, ha⟩ := hheld
    refine Or.inl ⟨⟨a, ha, fun b hb => h.accounted.alone b a k hb ha⟩, ?_⟩
    obtain ⟨d, hd, hblock⟩ := Option.bind_eq_some_iff.mp ha
    have hrel := h.contains a
    rw [hd] at hrel
    generalize lists a = l at hrel
    cases hrel with
    | some hcontains =>
        have hdata := block_eq_some.mp hblock
        obtain ⟨_, l, _, hl, hkept⟩ := hcontains.own.resolve_left (by rw [hdata]; exact Ptr.noConfusion)
        rw [Ptr.heap.inj (hdata.symm.trans hl)]
        exact List.count_eq_zero.mpr hkept
  · have hgone := (h.accounted.settled k hk).resolve_left hheld
    exact Or.inr ⟨fun a ha => hheld ⟨a, ha⟩, hgone.2, hgone.1⟩

/-- A step of a program with arrays, and the same step over lists. -/
structure Refines.Step (E : ElementType T) (new : Nat → Prog σ Unit) (w : Machine T σ × Lists T) (op : Op T)
    (w' : Machine T σ × Lists T) : Prop where
  step : w.1.step E new op = some w'.1
  lists : op.onLists E w.2 = some w'.2
  fits : op.Fits E w.1.vars

theorem refines_boot (s : σ) (external : List (Slot T)) :
    Refines (fun _ => none) (fun _ => none) (Machine.boot s external).state.2 :=
  ⟨fun _ => .none,
    ⟨fun _ _ he => (nomatch he), fun _ _ _ he => (nomatch he), fun _ hk => absurd hk (Nat.not_lt_zero _)⟩,
    fun _ hn => absurd hn List.not_mem_nil⟩

/-- **Arrays refine lists.** In every state that a program with owned arrays reaches they hold the lists of
    the same program over lists, each block is held by one array or was released once, and the next
    operation comes back when allocations do. -/
theorem arrays_refine_lists (hE : 0 < E.sizeof) (hnew : ∀ n s, Runs G (new n) s fun _ _ => True)
    {s : σ} {external : List (Slot T)} {ops : List (Op T)} {w : Machine T σ × Lists T}
    (h : Run (Refines.Step E new) (.boot s external, fun _ => none) ops w) :
    Refines w.1.vars w.2 w.1.state.2
    ∧ (∀ a d xs, w.1.vars a = some d → w.2 a = some xs →
        d.size ≤ d.capacity ∧ (d.elems E).run w.1.state = (.ok xs, w.1.state))
    ∧ (∀ k < w.1.state.2.blocks.length,
        (∃! a, (w.1.vars a).bind Dynarr.block = some k) ∧ w.1.state.2.notes.count (.deleted (.heap k)) = 0
        ∨ (∀ a, (w.1.vars a).bind Dynarr.block ≠ some k) ∧ w.1.state.2.notes.count (.deleted (.heap k)) = 1
          ∧ ∀ s ∈ w.1.state.2.slots (.heap k), s.live = false)
    ∧ ∀ (op : Op T) (lists : Lists T), op.onLists E w.2 = some lists → op.Fits E w.1.vars →
        Runs G (op.exec E new w.1.vars) w.1.state (Refined lists) := by
  have hr : Refines w.1.vars w.2 w.1.state.2 := by
    refine h.invariant (I := fun w => Refines w.1.vars w.2 w.1.state.2) (fun w op w' hs hi => ?_)
      (refines_boot s external)
    exact (runs_exec hE hnew hi hs.lists hs.fits).returned (Machine.step_eq_some.mp hs.step)
  refine ⟨hr, fun a d xs hd hxs => ?_, fun k hk => hr.block hk, fun op lists hl hfits =>
    runs_exec hE hnew hr hl hfits⟩
  obtain ⟨d', hd', hcontains⟩ := hr.array hxs
  obtain rfl := Option.some.inj (hd'.symm.trans hd)
  exact ⟨hcontains.size_le, hcontains.elems⟩

instance (op : Op T) (vars : Vars) : Decidable (op.Fits E vars) :=
  inferInstanceAs (Decidable (∀ call ∈ op.grows vars, E.sizeof.toNat * call.2 < 2 ^ 64))

/-- Both steps, where they can be taken. -/
def Refines.advance (E : ElementType T) (new : Nat → Prog σ Unit) (w : Machine T σ × Lists T) (op : Op T) :
    Option (Machine T σ × Lists T) := do
  let m ← w.1.step E new op
  let lists ← op.onLists E w.2
  if op.Fits E w.1.vars then pure (m, lists) else none

theorem Refines.step_of_advance {w w' : Machine T σ × Lists T} {op : Op T}
    (h : Refines.advance E new w op = some w') : Refines.Step E new w op w' := by
  obtain ⟨m, hm, h⟩ := Option.bind_eq_some_iff.mp h
  obtain ⟨lists, hl, h⟩ := Option.bind_eq_some_iff.mp h
  obtain ⟨hfits, h⟩ := Option.ite_none_right_eq_some.mp h
  obtain rfl := Option.some.inj h
  exact ⟨hm, hl, hfits⟩

/-- Two arrays, one copied from the other, and an element moved between them. -/
def twoArrays : List (Op UInt8) :=
  [.sized 0 2, .pushBack 0 (.given 7), .copy 1 0, .pushBack 1 (.moved 0 2), .assignMove 0 1, .destruct 1]

theorem arrays_refine_lists_two : ∃ (w : Machine UInt8 Unit × Lists UInt8) (d : Dynarr),
    w.1.vars 0 = some d ∧ (d.elems byteType).run w.1.state = (.ok [0, 0, 7, 7], w.1.state) := by
  have hcalls : (twoArrays.foldlM (Refines.advance byteType fun _ => pure ())
      (.boot () [], fun _ => none)).map (fun w => (w.1.vars 0).isSome && w.2 0 == some [0, 0, 7, 7])
        = some true := by decide +kernel
  obtain ⟨w, hw, hend⟩ := Option.map_eq_some_iff.mp hcalls
  obtain ⟨hd, hl⟩ := Bool.and_eq_true_iff.mp hend
  obtain ⟨d, hd⟩ := Option.isSome_iff_exists.mp hd
  have hrun := Run.of_foldlM (fun _ _ _ => Refines.step_of_advance) .start hw
  have hall := arrays_refine_lists (G := True) (E := byteType) (by decide)
    (fun _ _ => Runs.pure trivial) hrun
  exact ⟨w, d, hd, (hall.2.1 0 d _ hd (eq_of_beq hl)).2⟩

end AlopexOS.Arr
