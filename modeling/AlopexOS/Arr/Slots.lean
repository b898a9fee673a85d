import AlopexOS.Arr.Members

/-!
# `Arr.Slots` — what the loops of an array do to its storage

Each loop of the class goes over the slots of one array from the first to the last and does the same to
each. `each_setSlots` is what follows: the slots are the new ones, and the rest of memory is as it was.

## Contents
- **Storage**: reading and replacing the slots behind a pointer.
- **One element**: what is done to a slot in the state it should be in.
- **Loops** over the slots of an array.
-/

namespace AlopexOS.Arr

variable {T : Type} {E : ElementType T}

/-- A live object. -/
def object (x : T) : Slot T := ⟨some x, true⟩

/-- What a destructor leaves. -/
def remains (x : T) : Slot T := ⟨some x, false⟩

namespace Memory

variable {m : Memory T} {p q : Ptr} {xs ys a b c d : List (Slot T)} {s : Slot T} {x : T}

/-! ## Storage -/

theorem slots_setSlots (h : m.slots p ≠ []) : (m.setSlots p xs).slots p = xs := by
  cases p with
  | null => exact absurd rfl h
  | heap k =>
      have hk : k < m.blocks.length := by
        by_contra hge
        exact h (by simp only [slots, List.getD_eq_getElem?_getD, List.getElem?_eq_none (Nat.not_lt.mp hge),
          Option.getD_none])
      simp only [slots, setSlots, List.getD_eq_getElem?_getD, List.getElem?_set_self hk, Option.getD_some]
  | external => rfl

theorem ne_nil_of_middle (h : m.slots p = a ++ s :: b) : m.slots p ≠ [] := by
  rw [h]
  exact List.append_ne_nil_of_right_ne_nil _ (List.cons_ne_nil _ _)

theorem slots_setSlots_ne (h : q ≠ p) : (m.setSlots p xs).slots q = m.slots q := by
  cases p with
  | null => rfl
  | heap k =>
      cases q with
      | null => rfl
      | heap l =>
          have hkl : k ≠ l := fun he => h (he ▸ rfl)
          simp only [slots, setSlots, List.getD_eq_getElem?_getD, List.getElem?_set_ne hkl]
      | external => rfl
  | external =>
      cases q with
      | null => rfl
      | heap l => rfl
      | external => exact absurd rfl h

@[simp] theorem length_blocks_setSlots : (m.setSlots p xs).blocks.length = m.blocks.length := by
  cases p with
  | null => rfl
  | heap k => exact List.length_set
  | external => rfl

@[simp] theorem setSlots_setSlots : (m.setSlots p xs).setSlots p ys = m.setSlots p ys := by
  cases p with
  | null => rfl
  | heap k => simp only [setSlots, List.set_set]
  | external => rfl

theorem setSlots_self (h : m.slots p = xs) : m.setSlots p xs = m := by
  subst h
  cases p with
  | null => rfl
  | heap k =>
      have hset : m.blocks.set k (m.blocks.getD k []) = m.blocks := by
        by_cases hk : k < m.blocks.length
        · rw [List.getD_eq_getElem?_getD, List.getElem?_eq_getElem hk, Option.getD_some, List.set_getElem_self]
        · exact List.set_eq_of_length_le (Nat.not_lt.mp hk)
      simp only [setSlots, slots, hset]
  | external => rfl

theorem slots_setSlots_of_length (h : xs.length = (m.slots p).length) : (m.setSlots p xs).slots p = xs := by
  by_cases hnil : m.slots p = []
  · rw [hnil, List.length_nil] at h
    rw [List.length_eq_zero_iff.mp h, setSlots_self hnil, hnil]
  · exact slots_setSlots hnil

theorem setSlots_comm (h : p ≠ q) : (m.setSlots p xs).setSlots q ys = (m.setSlots q ys).setSlots p xs := by
  cases p <;> cases q <;> try rfl
  · rename_i k l
    have hkl : k ≠ l := fun he => h (he ▸ rfl)
    simp only [setSlots, List.set_comm _ _ hkl]
  · exact absurd rfl h

/-! ## One element -/

theorem getElem?_middle (h : m.slots p = a ++ s :: b) : (m.slots p)[a.length]? = some s := by
  rw [h, List.getElem?_append_right (Nat.le_refl _), Nat.sub_self, List.getElem?_cons_zero]

theorem put_eq (h : m.slots p = a ++ s :: b) (y : Slot T) : m.put p a.length y = m.setSlots p (a ++ y :: b) := by
  have hlt : a.length < (m.slots p).length := by
    rw [h, List.length_append, List.length_cons]
    omega
  rw [put, if_pos hlt, h, List.set_append_right _ _ (Nat.le_refl _), Nat.sub_self, List.set_cons_zero]

theorem destroy_eq (h : m.slots p = a ++ object x :: b) :
    m.destroy p a.length = m.setSlots p (a ++ remains x :: b) := by
  have hslot : (m.slots p)[a.length]? = some ⟨some x, true⟩ := getElem?_middle h
  simp only [destroy, hslot]
  exact put_eq h _

theorem construct_eq (h : m.slots p = a ++ s :: b) (hs : s.live = false) (y : T) :
    m.construct p a.length y = m.setSlots p (a ++ object y :: b) := by
  have hraw : ¬ (m.slots p)[a.length]?.any Slot.live := by
    rw [getElem?_middle h, Option.any_some, hs]
    exact Bool.false_ne_true
  simp only [construct, if_neg hraw]
  exact put_eq h _

theorem load_eq {i : Nat} (h : (m.slots p)[i]? = some (object x)) : m.load E p i = (x, m) := by
  have hslot : (m.slots p)[i]? = some ⟨some x, true⟩ := h
  simp only [load, hslot]

theorem copyTo_eq {y : T} (hp : (m.slots p)[a.length]? = some (object x))
    (hq : m.slots q = a ++ object y :: b) :
    m.copyTo E p q a.length = m.setSlots q (a ++ object x :: b) := by
  have hlive : (m.slots q)[a.length]?.any Slot.live := by
    rw [getElem?_middle hq, Option.any_some]
    rfl
  simp only [copyTo, load_eq hp, if_pos hlive]
  exact put_eq hq _

theorem moveTo_eq (hpq : p ≠ q) (hlen : c.length = a.length)
    (hp : m.slots p = a ++ object x :: b) (hq : m.slots q = c ++ s :: d) (hs : s.live = false) :
    m.moveTo E p q a.length
      = (m.setSlots p (a ++ object (E.moved x) :: b)).setSlots q (c ++ object x :: d) := by
  have hq' : (m.setSlots p (a ++ object (E.moved x) :: b)).slots q = c ++ s :: d := by
    rw [slots_setSlots_ne hpq.symm, hq]
  have hput : m.put p a.length ⟨some (E.moved x), true⟩ = m.setSlots p (a ++ object (E.moved x) :: b) :=
    put_eq hp _
  simp only [moveTo, load_eq (getElem?_middle hp), hput]
  rw [← hlen]
  exact construct_eq hq' hs x

/-! ## Loops -/

@[simp] theorem each_self (f : Memory T → Nat → Memory T) (i : Nat) : m.each f i i = m := by
  simp only [each, Nat.sub_self, List.range'_zero, List.foldl_nil]

theorem each_of_ge (f : Memory T → Nat → Memory T) {i j : Nat} (h : j ≤ i) : m.each f i j = m := by
  simp only [each, Nat.sub_eq_zero_of_le h, List.range'_zero, List.foldl_nil]

theorem each_cons (f : Memory T → Nat → Memory T) {i n : Nat} :
    m.each f i (i + (n + 1)) = (f m i).each f (i + 1) (i + 1 + n) := by
  simp only [each, Nat.add_sub_cancel_left, List.range'_succ, List.foldl_cons]

theorem each_succ (f : Memory T → Nat → Memory T) {n : Nat} : m.each f 0 (n + 1) = f (m.each f 0 n) n := by
  simp only [each, Nat.sub_zero, List.range'_1_concat, List.foldl_append, List.foldl_cons, List.foldl_nil,
    Nat.zero_add]

/-- What each turn of a loop preserves. -/
theorem each_induct {P : Memory T → Prop} {f : Memory T → Nat → Memory T} {i j : Nat}
    (hstep : ∀ m k, k < j → P m → P (f m k)) (h : P m) : P (m.each f i j) := by
  unfold each
  refine List.foldlRecOn _ _ h fun m hm k hk => hstep m k ?_ hm
  obtain ⟨hge, hlt⟩ := List.mem_range'_1.mp hk
  omega

/-- **A loop over the slots of an array.** The pairs are each slot before and after. What the loop reads
    elsewhere stays as it is meanwhile. -/
theorem each_setSlots {f : Memory T → Nat → Memory T} (zs : List (Slot T × Slot T))
    (hstep : ∀ (m' : Memory T) (c d : List (Slot T × Slot T)) (z : Slot T × Slot T), zs = c ++ z :: d →
      (∀ q, q ≠ p → m'.slots q = m.slots q) →
      m'.slots p = a ++ c.map Prod.snd ++ z.1 :: (d.map Prod.fst ++ b) →
      f m' (a.length + c.length) = m'.setSlots p (a ++ c.map Prod.snd ++ z.2 :: (d.map Prod.fst ++ b)))
    (h : m.slots p = a ++ zs.map Prod.fst ++ b) :
    m.each f a.length (a.length + zs.length) = m.setSlots p (a ++ zs.map Prod.snd ++ b) := by
  -- the pairs that are done come first
  have hloop : ∀ (d c : List (Slot T × Slot T)) (m' : Memory T), zs = c ++ d →
      (∀ q, q ≠ p → m'.slots q = m.slots q) → m'.slots p = a ++ c.map Prod.snd ++ (d.map Prod.fst ++ b) →
      m'.each f (a.length + c.length) (a.length + c.length + d.length)
        = m'.setSlots p (a ++ zs.map Prod.snd ++ b) := by
    intro d
    induction d with
    | nil =>
        intro c m' hzs _ hp
        rw [List.append_nil] at hzs
        rw [List.length_nil, Nat.add_zero, each_self, hzs]
        exact (setSlots_self hp).symm
    | cons z d ih =>
        intro c m' hzs hq hp
        have hp' : m'.slots p = a ++ c.map Prod.snd ++ z.1 :: (d.map Prod.fst ++ b) := hp
        have hnext := ih (c ++ [z]) (f m' (a.length + c.length)) (by rw [hzs, List.append_assoc]; rfl)
          (fun q hqp => by rw [hstep m' c d z hzs hq hp', slots_setSlots_ne hqp, hq q hqp])
          (by
            rw [hstep m' c d z hzs hq hp', slots_setSlots (ne_nil_of_middle hp'), List.map_append, List.map_singleton]
            simp only [List.append_assoc, List.singleton_append])
        rw [List.length_append, List.length_singleton, ← Nat.add_assoc] at hnext
        rw [List.length_cons, each_cons, hnext, hstep m' c d z hzs hq hp', setSlots_setSlots]
  have hwhole := hloop zs [] m rfl (fun _ _ => rfl) (by
    rw [h, List.map_nil, List.append_nil, List.append_assoc])
  simpa only [List.length_nil, Nat.add_zero] using hwhole

variable {vs ws : List T}

/-- Live objects are destroyed one after the other. -/
theorem each_destroy (h : m.slots p = a ++ vs.map object ++ b) :
    m.each (fun m i => m.destroy p i) a.length (a.length + vs.length)
      = m.setSlots p (a ++ vs.map remains ++ b) := by
  have hloop := each_setSlots (m := m) (p := p) (a := a) (b := b) (f := fun m i => m.destroy p i)
    (vs.map fun v => (object v, remains v)) ?_ (by simpa [Function.comp_def] using h)
  · simpa [Function.comp_def] using hloop
  · rintro m' c d z hzs - hp
    have hz : z ∈ vs.map fun v => (object v, remains v) := by
      rw [hzs]
      exact List.mem_append_right _ List.mem_cons_self
    obtain ⟨v, _, rfl⟩ := List.mem_map.mp hz
    simpa using destroy_eq hp

/-- Objects are made in raw slots. -/
theorem each_construct (h : m.slots p = a ++ xs ++ b) (hraw : ∀ s ∈ xs, s.live = false) (x : T) :
    m.each (fun m i => m.construct p i x) a.length (a.length + xs.length)
      = m.setSlots p (a ++ List.replicate xs.length (object x) ++ b) := by
  have hloop := each_setSlots (m := m) (p := p) (a := a) (b := b) (f := fun m i => m.construct p i x)
    (xs.map fun s => (s, object x)) ?_ (by simpa [Function.comp_def] using h)
  · simpa [Function.comp_def, List.map_const'] using hloop
  · rintro m' c d z hzs - hp
    have hz : z ∈ xs.map fun s => (s, object x) := by
      rw [hzs]
      exact List.mem_append_right _ List.mem_cons_self
    obtain ⟨s, hs, rfl⟩ := List.mem_map.mp hz
    simpa using construct_eq hp (hraw s hs) x

/-- The objects of one array are assigned to those of another. -/
theorem each_copyTo (hpq : p ≠ q) (hlen : ws.length = vs.length) (hp : m.slots p = vs.map object ++ a)
    (hq : m.slots q = ws.map object ++ b) :
    m.each (fun m i => m.copyTo E p q i) 0 vs.length = m.setSlots q (vs.map object ++ b) := by
  have hws : (ws.zip vs).map Prod.fst = ws := List.map_fst_zip (Nat.le_of_eq hlen)
  have hvs : (ws.zip vs).map Prod.snd = vs := List.map_snd_zip (Nat.le_of_eq hlen.symm)
  have hfst : ((ws.zip vs).map fun z => object z.1) = ws.map object := by
    rw [← congrArg (List.map object) hws, List.map_map]
    rfl
  have hsnd : ((ws.zip vs).map fun z => object z.2) = vs.map object := by
    rw [← congrArg (List.map object) hvs, List.map_map]
    rfl
  have hloop := each_setSlots (m := m) (p := q) (a := []) (b := b) (f := fun m i => m.copyTo E p q i)
    ((ws.zip vs).map fun z => (object z.1, object z.2)) ?_ (by simpa [Function.comp_def, hfst] using hq)
  · simpa [Function.comp_def, hsnd, hlen] using hloop
  · rintro m' c d z hzs hsame hq'
    -- the pair in the middle is of elements at the same place
    obtain ⟨c', d', hzip, rfl, hd⟩ := List.map_eq_append_iff.mp hzs
    obtain ⟨⟨w, v⟩, d'', rfl, rfl, rfl⟩ := List.map_eq_cons_iff.mp hd
    have hp' : (m'.slots p)[c'.length]? = some (object v) := by
      rw [hsame p hpq, hp, ← hvs, hzip]
      simp
    have hcopy := copyTo_eq (E := E) (m := m') (p := p) (q := q)
      (a := (c'.map fun z => (object z.1, object z.2)).map Prod.snd) (by simpa using hp')
      (by simpa using hq')
    simpa using hcopy

/-- The objects of one array are moved to the raw slots of another. -/
theorem each_moveTo (hpq : p ≠ q) (hp : m.slots p = a ++ vs.map object ++ b)
    (hq : m.slots q = c ++ ys ++ d) (hlen : c.length = a.length) (hys : ys.length = vs.length)
    (hraw : ∀ s ∈ ys, s.live = false) :
    m.each (fun m i => m.moveTo E p q i) a.length (a.length + vs.length)
      = (m.setSlots p (a ++ vs.map (fun v => object (E.moved v)) ++ b)).setSlots q
          (c ++ vs.map object ++ d) := by
  induction vs generalizing a c ys m with
  | nil =>
      obtain rfl : ys = [] := List.length_eq_zero_iff.mp hys
      have hsame : m.setSlots p (a ++ [] ++ b) = m := setSlots_self hp
      rw [List.length_nil, Nat.add_zero, each_self, List.map_nil, hsame]
      exact (setSlots_self hq).symm
  | cons v vs ih =>
      obtain ⟨r, ys, rfl⟩ := List.exists_cons_of_length_eq_add_one hys
      have hp' : m.slots p = a ++ object v :: (vs.map object ++ b) := by simpa using hp
      have hq' : m.slots q = c ++ r :: (ys ++ d) := by simpa using hq
      have hstep := moveTo_eq (E := E) hpq hlen hp' hq' (hraw r List.mem_cons_self)
      rw [List.length_cons, each_cons, hstep]
      have hnext := ih (m := (m.setSlots p (a ++ object (E.moved v) :: (vs.map object ++ b))).setSlots q
          (c ++ object v :: (ys ++ d))) (a := a ++ [object (E.moved v)]) (c := c ++ [object v])
        (by
          rw [slots_setSlots_ne hpq, slots_setSlots (ne_nil_of_middle hp')]
          simp)
        (by
          rw [slots_setSlots (by rw [slots_setSlots_ne hpq.symm]; exact ne_nil_of_middle hq')]
          simp)
        (by simpa using hlen) (by simpa using hys) (fun s hs => hraw s (List.mem_cons_of_mem _ hs))
      rw [List.length_append, List.length_singleton] at hnext
      rw [hnext, setSlots_comm hpq.symm, setSlots_setSlots, setSlots_setSlots]
      simp

end Memory

end AlopexOS.Arr
