import AlopexOS.Abtrfs.Volumes
import AlopexOS.Lib.Run

/-!
# `Abtrfs.Extents` — the blocks handed to new files

Where a new file goes is not stored anywhere: it is computed from the free count, which creations, growing
files and failing calls all move. Here the device is any platform at all, so headers and contents that
`writeFile` reads may be anything. The two space checks alone keep the blocks of two new files apart.

## Contents
- **Requests.** `logging`, a platform that keeps a list of the block writes it was asked for.
- **One call.** What it does to the free count, and where the blocks of a new file go.
- **A run of calls.** `extents_apart`.
-/

namespace AlopexOS

open Packed ByteString Prog

variable {σ α : Type} {P : Platform σ} {fs fs' : AbtrFS} {path : Path} {data : List UInt8} {off : UInt64}

/-! ## Requests -/

/-- The block writes asked for so far, in order, whether they succeeded or not. -/
abbrev Requests := List (Nat × Block)

/-- The platform `P`, with a list of the writes it was asked for. -/
def logging (P : Platform σ) : Platform (σ × Requests) where
  operatorNew n := ⟨fun s =>
    match (P.operatorNew n).run s.1 with
    | (r, s') => (r, (s', s.2))⟩
  submitRead handle b := ⟨fun s =>
    match (P.submitRead handle b).run s.1 with
    | (r, s') => (r, (s', s.2))⟩
  submitWrite handle b x := ⟨fun s =>
    match (P.submitWrite handle b x).run s.1 with
    | (r, s') => (r, (s', s.2 ++ [(b.toNat, x)]))⟩
  walkBound := P.walkBound

/-- A program that asks for no write. -/
abbrev Silent (x : Prog (σ × Requests) α) : Prop := Keeps Prod.snd x

theorem silent_operatorNew (n : Nat) : Silent ((logging P).operatorNew n) := fun _ => rfl

theorem silent_readBlock (fs : AbtrFS) (b : UInt64) (buffer : Block) :
    Silent (readBlock (logging P) fs b buffer) := .ite (.pure _) fun _ => rfl

theorem silent_descend {segment : List UInt8} {isLast : Bool}
    {next : TreeNode → Prog (σ × Requests) TreeNode} (hnext : ∀ t, Silent (next t)) (t : TreeNode) :
    Silent (descend (logging P) segment isLast next t) := by
  induction t with
  | null =>
      refine (silent_operatorNew _).bind fun _ => ?_
      cases isLast with
      | true => exact .pure _
      | false => exact (hnext _).bind fun _ => .pure _
  | node name isDirectory left right ihl ihr =>
      refine .ite ?_ (.ite ?_ ?_)
      · cases isLast with
        | true => exact .pure _
        | false => exact (hnext _).bind fun _ => .pure _
      · exact ihl.bind fun _ => .pure _
      · exact ihr.bind fun _ => .pure _

theorem silent_findOrCreateNode (segments : List (List UInt8)) (t : TreeNode) :
    Silent (findOrCreateNode (logging P) segments t) := by
  induction segments generalizing t with
  | nil => exact .pure _
  | cons segment segments ih => exact silent_descend ih t

theorem silent_walk (fs : AbtrFS) (path : Path) (used : UInt64) (n : Nat) (curr : UInt64)
    (buffer : Block) : Silent (walk (logging P) fs path used n curr buffer) := by
  induction n generalizing curr buffer with
  | zero => exact .fail _
  | succ n ih =>
      refine .ite ((silent_readBlock _ _ _).bind fun r => .ite ?_ (.pure _)) (.pure _)
      exact .ite (.pure _) (ih _ _)

theorem silent_findFileHeader (fs : AbtrFS) (path : Path) :
    Silent (findFileHeader (logging P) fs path) :=
  (silent_operatorNew _).bind fun _ => silent_walk _ _ _ _ _ _

theorem silent_readBlocks (fs : AbtrFS) (payloadOffset count : UInt64) (n : Nat) (b : UInt64)
    (shift remaining : Nat) (buffer : Block) :
    Silent (readBlocks (logging P) fs payloadOffset count n b shift remaining buffer) := by
  induction n generalizing b shift remaining buffer with
  | zero => exact .pure _
  | succ n ih =>
      refine .ite ((silent_readBlock _ _ _).bind fun r => .ite ?_ (.pure _)) (.pure _)
      exact (ih _ _ _ _).bind fun _ => .pure _

theorem silent_resize (d : Dynarr) (n : Nat) : Silent (d.resize (logging P) n) := by
  unfold Dynarr.resize
  split
  · exact (silent_operatorNew _).bind fun _ => .pure _
  · exact .pure _

theorem silent_readFile (fs : AbtrFS) (path : Path) (d : Option Dynarr) (q n : UInt64) :
    Silent (readFile (logging P) fs path d q n) := by
  refine .ite (.pure _) (.ite (.pure _) ((silent_operatorNew _).bind fun _ =>
    (silent_findFileHeader _ _).bind fun found => ?_))
  cases found with
  | none => exact .pure _
  | some header =>
      refine .ite (.pure _) ((silent_resize _ _).bind fun target => (silent_operatorNew _).bind fun _ =>
        (silent_readBlocks _ _ _ _ _ _ _ _).bind fun r => .ite ?_ (.pure _))
      exact (silent_operatorNew _).bind fun _ => .pure _

theorem silent_oldContent (fs : AbtrFS) (path : Path) (found : Option AbtrFSDiskHeader) :
    Silent (oldContent (logging P) fs path found) := by
  cases found with
  | none => exact .pure _
  | some header =>
      refine (silent_readFile _ _ _ _ _).bind fun r => ?_
      cases r.1 with
      | ok bytes => exact .pure _
      | error e => exact .pure _

/-- `writeAll` asks for the first writes of its list, or for none without a device. -/
theorem requests_writeAll {ws : List (UInt64 × Block)} {s s' : σ × Requests} {ok : Bool}
    (h : (writeAll (logging P) fs ws).run s = (.ok ok, s')) :
    ∃ k, s'.2 = s.2 ++ (onDisk ws).take k := by
  induction ws generalizing s with
  | nil =>
      obtain ⟨_, rfl⟩ := Prod.mk.inj h
      exact ⟨0, (List.append_nil _).symm⟩
  | cons w ws ih =>
      obtain ⟨ok', s₁, hwrite, hrest⟩ := bind_eq_ok h
      have hfirst : s₁.2 = s.2 ∧ ok' = false ∨ s₁.2 = s.2 ++ [(w.1.toNat, w.2)] := by
        unfold writeBlock at hwrite
        split at hwrite
        · obtain ⟨hok, rfl⟩ := Prod.mk.inj hwrite
          exact Or.inl ⟨rfl, (Except.ok.inj hok).symm⟩
        · obtain ⟨_, rfl⟩ := Prod.mk.inj hwrite
          exact Or.inr rfl
      cases ok' with
      | false =>
          obtain ⟨_, rfl⟩ : false = ok ∧ s₁ = s' := by simpa using hrest
          rcases hfirst with ⟨hlog, _⟩ | hlog
          · exact ⟨0, by rw [hlog, List.take_zero, List.append_nil]⟩
          · exact ⟨1, hlog⟩
      | true =>
          obtain hlog := hfirst.resolve_left (by simp)
          obtain ⟨k, hk⟩ := ih hrest
          exact ⟨k + 1, by rw [hk, hlog, List.append_assoc]; rfl⟩

/-! ## One call -/

/-- A call of `write_file`. -/
structure WriteCall where
  path : Path
  data : List UInt8
  offset : UInt64

/-- The size the file has after the call. -/
def WriteCall.final (call : WriteCall) (found : Option AbtrFSDiskHeader) : UInt64 :=
  finalSize found call.data call.offset

/-- Whether the call takes the branch of a new file and passes the space check there. -/
def takesCreateBranch (P : Platform σ) (fs : AbtrFS) (call : WriteCall) : Prog σ Bool :=
  if fs.isMounted = false then pure false
  else if chopPath call.path = [] then pure false
  else do
    let root ← findOrCreateNode P (chopPath call.path) fs.rootNode
    let found ← findFileHeader P { fs with rootNode := root } call.path
    pure (found.isNone && call.final found ≠ 0 &&
      (claimBlocks fs.partitionHeader found (requiredBlocks (call.final found))).isSome)

/-- What a call claims never makes the free count larger. -/
theorem claimBlocks_le {h h' : PartitionHeader} {found : Option AbtrFSDiskHeader} {required : UInt64}
    (hr : required.toNat < 2 ^ 53) (hfree : h.freeBlocksCount.toNat ≤ h.totalBlocks.toNat)
    (hc : claimBlocks h found required = some h') :
    h'.totalBlocks = h.totalBlocks ∧ h'.freeBlocksCount.toNat ≤ h.freeBlocksCount.toNat := by
  cases found with
  | none =>
      obtain ⟨hh, _, hfit, _⟩ := claimBlocks_new_eq_some hfree hr hc
      have hone : (1 + required).toNat = 1 + required.toNat := Word.toNat_add_of_lt
        (show 1 + required.toNat < 2 ^ 64 by omega)
      rw [hh, PartitionHeader.totalBlocks_setFree, PartitionHeader.freeBlocksCount_setFree,
        Word.toNat_sub_of_le (by omega)]
      exact ⟨rfl, Nat.sub_le _ _⟩
  | some header =>
      simp only [claimBlocks] at hc
      split at hc
      · split at hc
        · cases hc
        · rename_i hge
          obtain rfl := Option.some.inj hc
          rw [PartitionHeader.totalBlocks_setFree, PartitionHeader.freeBlocksCount_setFree,
            Word.toNat_sub_of_le (Nat.le_of_not_lt fun hlt => hge (UInt64.lt_iff_toNat_lt.mpr hlt))]
          exact ⟨rfl, Nat.sub_le _ _⟩
      · obtain rfl := Option.some.inj hc
        exact ⟨rfl, Nat.le_refl _⟩

/-- How a call that returned leaves the object and the list of requests, once the walk has given
    `found`: nothing was claimed, or `h` is what was left and some of the planned writes were asked for. -/
inductive CallEnds (fs : AbtrFS) (call : WriteCall) (found : Option AbtrFSDiskHeader) (log : Requests) :
    AbtrFS → Requests → Prop
  | idle {fs' : AbtrFS} (hh : fs'.partitionHeader = fs.partitionHeader)
      (hno : call.final found = 0
        ∨ claimBlocks fs.partitionHeader found (requiredBlocks (call.final found)) = none) :
      CallEnds fs call found log fs' log
  | claimed {fs' : AbtrFS} (h0 : call.final found ≠ 0)
      (hc : claimBlocks fs.partitionHeader found (requiredBlocks (call.final found))
        = some fs'.partitionHeader) (x : List UInt8) (k : Nat) :
      CallEnds fs call found log fs'
        (log ++ (onDisk (callWrites fs call.path call.data call.offset found x fs'.partitionHeader)).take k)

theorem callEnds_writeFound {call : WriteCall} {found : Option AbtrFSDiskHeader} {s s' : σ × Requests}
    {e : ErrorCode}
    (h : (writeFound (logging P) fs call.path call.data call.offset found).run s = (.ok (e, fs'), s')) :
    CallEnds fs call found s.2 fs' s'.2 := by
  unfold writeFound at h
  dsimp only at h
  split at h
  · rename_i h0
    obtain ⟨hfs, rfl⟩ := Prod.mk.inj h
    obtain ⟨_, rfl⟩ := Prod.mk.inj (Except.ok.inj hfs)
    exact .idle rfl (Or.inl h0)
  · rename_i h0
    obtain ⟨_, s₁, hnew, hrest⟩ := bind_eq_ok h
    obtain ⟨old, s₂, hold, hrest⟩ := bind_eq_ok hrest
    have hlog : s₂.2 = s.2 :=
      ((silent_oldContent _ _ _).returned hold).trans ((silent_operatorNew _).returned hnew)
    split at hrest
    · cases (Prod.mk.inj hrest).1
    · rename_i x _
      split at hrest
      · rename_i hc
        obtain ⟨hfs, rfl⟩ := Prod.mk.inj hrest
        obtain ⟨_, rfl⟩ := Prod.mk.inj (Except.ok.inj hfs)
        rw [hlog]
        exact .idle rfl (Or.inr hc)
      · rename_i header hc
        obtain ⟨ok, s₃, hwrite, hres⟩ := bind_eq_ok hrest
        obtain ⟨k, hk⟩ := requests_writeAll hwrite
        -- the object is the same whether the writes went well or not
        have hfs : { fs with partitionHeader := header } = fs' ∧ s₃ = s' := by
          split at hres
          · obtain ⟨hfs, rfl⟩ := Prod.mk.inj hres
            exact ⟨(Prod.mk.inj (Except.ok.inj hfs)).2, rfl⟩
          · obtain ⟨hfs, rfl⟩ := Prod.mk.inj hres
            exact ⟨(Prod.mk.inj (Except.ok.inj hfs)).2, rfl⟩
        obtain ⟨rfl, rfl⟩ := hfs
        rw [hk, hlog]
        exact .claimed h0 hc x k

/-- The tree of names does not matter to it. -/
theorem CallEnds.of_root {call : WriteCall} {found : Option AbtrFSDiskHeader} {log log' : Requests}
    {root : TreeNode} (h : CallEnds { fs with rootNode := root } call found log fs' log') :
    CallEnds fs call found log fs' log' := by
  cases h with
  | idle hh hno => exact .idle hh hno
  | claimed h0 hc x k => exact @CallEnds.claimed fs call found log fs' h0 hc x k

/-- The walk of a call answered `found`, and the call went on from there. -/
structure CallRan (P : Platform σ) (fs : AbtrFS) (call : WriteCall) (s : σ) (root : TreeNode)
    (found : Option AbtrFSDiskHeader) (s₁ s₂ : σ) (res : ErrorCode × AbtrFS) (s' : σ) : Prop where
  tree : (findOrCreateNode P (chopPath call.path) fs.rootNode).run s = (.ok root, s₁)
  walk : (findFileHeader P { fs with rootNode := root } call.path).run s₁ = (.ok found, s₂)
  branch : (takesCreateBranch P fs call).run s
    = (.ok (found.isNone && call.final found ≠ 0 &&
        (claimBlocks fs.partitionHeader found (requiredBlocks (call.final found))).isSome), s₂)
  rest : (writeFound P { fs with rootNode := root } call.path call.data call.offset found).run s₂
    = (.ok res, s')

/-- **Inversion of a call**: it is over before the walk, or the walk answered. -/
theorem writeFile_inv {P : Platform σ} {call : WriteCall} {s s' : σ} {res : ErrorCode × AbtrFS}
    (h : (writeFile P fs call.path call.data call.offset).run s = (.ok res, s')) :
    (res.2 = fs ∧ s' = s ∧ (takesCreateBranch P fs call).run s = (.ok false, s)
        ∧ (fs.isMounted = false ∨ chopPath call.path = []))
      ∨ (fs.isMounted = true ∧ chopPath call.path ≠ [])
        ∧ ∃ root found s₁ s₂, CallRan P fs call s root found s₁ s₂ res s' := by
  unfold writeFile at h
  by_cases hm : fs.isMounted = false
  · rw [if_pos hm] at h
    obtain ⟨hres, rfl⟩ := Prod.mk.inj h
    rw [← Except.ok.inj hres]
    exact Or.inl ⟨rfl, rfl, by rw [takesCreateBranch, if_pos hm]; rfl, Or.inl hm⟩
  · rw [if_neg hm] at h
    by_cases hpath : chopPath call.path = []
    · rw [if_pos hpath] at h
      obtain ⟨hres, rfl⟩ := Prod.mk.inj h
      rw [← Except.ok.inj hres]
      exact Or.inl ⟨rfl, rfl, by rw [takesCreateBranch, if_neg hm, if_pos hpath]; rfl, Or.inr hpath⟩
    · rw [if_neg hpath] at h
      obtain ⟨root, s₁, htree, hrest⟩ := bind_eq_ok h
      obtain ⟨found, s₂, hwalk, hrest⟩ := bind_eq_ok hrest
      refine Or.inr ⟨⟨by simpa using hm, hpath⟩, root, found, s₁, s₂, htree, hwalk, ?_, hrest⟩
      rw [takesCreateBranch, if_neg hm, if_neg hpath, run_bind, htree, andThen_ok, run_bind, hwalk,
        andThen_ok, run_pure]

/-- **A call that returned** is over before the walk, or ends as the walk's answer says. -/
theorem callEnds_writeFile {call : WriteCall} {s s' : σ × Requests} {e : ErrorCode}
    (h : (writeFile (logging P) fs call.path call.data call.offset).run s = (.ok (e, fs'), s')) :
    (fs' = fs ∧ s' = s ∧ ∀ b s₁, (takesCreateBranch (logging P) fs call).run s = (.ok b, s₁) → b = false)
      ∨ ∃ found, CallEnds fs call found s.2 fs' s'.2
        ∧ ∀ b s₁, (takesCreateBranch (logging P) fs call).run s = (.ok b, s₁) →
          (b = true ↔ found = none ∧ call.final none ≠ 0
            ∧ claimBlocks fs.partitionHeader none (requiredBlocks (call.final none)) ≠ none) := by
  rcases writeFile_inv h with ⟨hfs, hs, hno, _⟩ | ⟨_, root, found, s₁, s₂, hran⟩
  · refine Or.inl ⟨hfs, hs, fun b s₁ hb => ?_⟩
    rw [hno] at hb
    exact (Except.ok.inj (Prod.mk.inj hb).1).symm
  · have hlog : s₂.2 = s.2 := ((silent_findFileHeader _ _).returned hran.walk).trans
      ((silent_findOrCreateNode _ _).returned hran.tree)
    have hends := callEnds_writeFound hran.rest
    rw [hlog] at hends
    refine Or.inr ⟨found, hends.of_root, fun b s₃ hb => ?_⟩
    rw [hran.branch] at hb
    rw [← Except.ok.inj (Prod.mk.inj hb).1]
    cases found with
    | none => simp [Option.isSome_iff_ne_none]
    | some header => simp

/-! ## A run of calls -/

/-- One call of a run: the object before and after it, whether it takes the branch of a new file past
    the space check, and the block writes it asks for. -/
structure Visit where
  call : WriteCall
  before : AbtrFS
  after : AbtrFS
  created : Bool
  requests : Requests

/-- The blocks of the header and the payload of the new file: the first ones a creation writes. -/
def Visit.blocks (v : Visit) : List Nat :=
  (v.requests.take (1 + (requiredBlocks (v.call.final none)).toNat)).map Prod.fst

/-- One call returns. -/
structure WriteStep (P : Platform σ) (x : AbtrFS × σ × Requests) (v : Visit)
    (y : AbtrFS × σ × Requests) : Prop where
  small : v.call.offset.toNat + v.call.data.length < 2 ^ 63
  before : v.before = x.1
  after : v.after = y.1
  returns : ∃ e, (writeFile (logging P) x.1 v.call.path v.call.data v.call.offset).run x.2
    = (.ok (e, y.1), y.2)
  created : v.created = true ↔ ∃ s, (takesCreateBranch (logging P) x.1 v.call).run x.2 = (.ok true, s)
  requests : y.2.2 = x.2.2 ++ v.requests

/-- Every call that returns is a step. -/
theorem exists_visit (call : WriteCall) {x : AbtrFS × σ × Requests} {s' : σ × Requests} {e : ErrorCode}
    (hsmall : call.offset.toNat + call.data.length < 2 ^ 63)
    (h : (writeFile (logging P) x.1 call.path call.data call.offset).run x.2 = (.ok (e, fs'), s')) :
    ∃ v : Visit, v.call = call ∧ WriteStep P x v (fs', s') := by
  have hgrows : ∃ r, s'.2 = x.2.2 ++ r := by
    rcases callEnds_writeFile h with ⟨_, rfl, _⟩ | ⟨found, hends, _⟩
    · exact ⟨[], (List.append_nil _).symm⟩
    · generalize s'.2 = log at hends
      cases hends with
      | idle _ _ => exact ⟨[], (List.append_nil _).symm⟩
      | claimed _ _ _ _ => exact ⟨_, rfl⟩
  obtain ⟨r, hr⟩ := hgrows
  by_cases hc : ∃ s, (takesCreateBranch (logging P) x.1 call).run x.2 = (.ok true, s)
  · exact ⟨⟨call, x.1, fs', true, r⟩, rfl, hsmall, rfl, rfl, ⟨e, h⟩, iff_of_true rfl hc, hr⟩
  · exact ⟨⟨call, x.1, fs', false, r⟩, rfl, hsmall, rfl, rfl, ⟨e, h⟩, iff_of_false (by simp) hc, hr⟩

/-- The object counts at least one used block, and no more than there are. -/
structure Counts (total : Nat) (fs : AbtrFS) : Prop where
  totalBlocks : fs.partitionHeader.totalBlocks.toNat = total
  free_le : fs.partitionHeader.freeBlocksCount.toNat ≤ total
  used : 1 ≤ fs.partitionHeader.used.toNat

/-- What is known of a call: it leaves no more blocks free than before, and a new file goes into blocks
    that were free before and are not any more. -/
structure Visit.Sound (total : Nat) (v : Visit) : Prop where
  free : v.after.partitionHeader.freeBlocksCount.toNat ≤ v.before.partitionHeader.freeBlocksCount.toNat
  before : Counts total v.before
  after : Counts total v.after
  blocks : v.created = true → ∀ b ∈ v.blocks,
    v.before.partitionHeader.used.toNat ≤ b ∧ b < v.after.partitionHeader.used.toNat

theorem Counts.toNat_used {total : Nat} (h : Counts total fs) :
    fs.partitionHeader.used.toNat = total - fs.partitionHeader.freeBlocksCount.toNat := by
  have := h.free_le
  rw [← h.totalBlocks] at this ⊢
  exact PartitionHeader.toNat_used this

/-- The first writes of a new file go to its blocks, one after the other. -/
theorem mem_newWrites {a n k b : Nat} {header super : Block} {x : List UInt8}
    (hb : b ∈ (((newWrites a n header x super).take k).take (1 + n)).map Prod.fst) :
    a ≤ b ∧ b < a + (1 + n) := by
  rw [List.take_take, Nat.min_comm, ← List.take_take] at hb
  obtain ⟨w, hw, rfl⟩ := List.mem_map.mp hb
  have hw' : w ∈ (a, header) :: (List.range n).map (fun b => (a + 1 + b, chunk 4096 x b)) := by
    have htake : (newWrites a n header x super).take (1 + n)
        = (a, header) :: (List.range n).map (fun b => (a + 1 + b, chunk 4096 x b)) := by
      rw [newWrites, payloadWrites, Nat.add_comm 1 n, List.take_succ_cons]
      congr 1
      apply List.take_left'
      rw [List.length_map, List.length_range]
    rw [← htake]
    exact List.mem_of_mem_take hw
  rcases List.mem_cons.mp hw' with rfl | hrest
  · constructor
    · exact Nat.le_refl a
    · show a < a + (1 + n)
      omega
  · obtain ⟨i, hi, rfl⟩ := List.mem_map.mp hrest
    have := List.mem_range.mp hi
    dsimp only
    omega

variable {x y : AbtrFS × σ × Requests} {v : Visit} {total : Nat}

theorem Counts.of_header (h : Counts total fs) (hh : fs'.partitionHeader = fs.partitionHeader) :
    Counts total fs' := by
  obtain ⟨h1, h2, h3⟩ := h
  rw [← hh] at h1 h2 h3
  exact ⟨h1, h2, h3⟩

/-- **One call.** -/
theorem WriteStep.sound (h : WriteStep P x v y) (hx : Counts total x.1) :
    v.Sound total ∧ Counts total y.1 := by
  obtain ⟨hsmall, hbefore, hafter, ⟨e, hrun⟩, hcreated, hreq⟩ := h
  suffices hs : v.Sound total by
    have := hs.after
    rw [hafter] at this
    exact ⟨hs, this⟩
  obtain ⟨fs, s⟩ := x
  obtain ⟨fs', s'⟩ := y
  obtain ⟨call, before, after, created, requests⟩ := v
  dsimp only at hsmall hbefore hafter hrun hcreated hreq hx
  subst hbefore hafter
  rcases callEnds_writeFile hrun with ⟨rfl, rfl, hno⟩ | ⟨found, hends, hbranch⟩
  · refine ⟨Nat.le_refl _, hx, hx, fun hc => ?_⟩
    obtain ⟨s₁, hs₁⟩ := hcreated.mp hc
    cases hno _ _ hs₁
  · generalize hlog : s'.2 = log at hends
    rw [hreq] at hlog
    cases hends with
    | idle hh hno =>
        refine ⟨Nat.le_of_eq (congrArg (fun h => h.freeBlocksCount.toNat) hh), hx, hx.of_header hh,
          fun hc => ?_⟩
        obtain ⟨s₁, hs₁⟩ := hcreated.mp hc
        obtain ⟨rfl, h0, hclaim⟩ := (hbranch _ _ hs₁).mp rfl
        exact (hno.elim h0 hclaim).elim
    | claimed h0 hc bytes k =>
        have hfree := hx.free_le
        rw [← hx.totalBlocks] at hfree
        have hreqle := requiredBlocks_le (call.final found)
        obtain ⟨htotal, hle⟩ := claimBlocks_le hreqle hfree hc
        have hcounts : Counts total after := by
          have htotal' : after.partitionHeader.totalBlocks.toNat = total := by rw [htotal, hx.totalBlocks]
          have hfree' := Nat.le_trans hle hx.free_le
          refine ⟨htotal', hfree', ?_⟩
          have hused := hx.toNat_used
          have hpos := hx.used
          rw [PartitionHeader.toNat_used (by rw [htotal']; exact hfree'), htotal']
          omega
        refine ⟨hle, hx, hcounts, fun hcr => ?_⟩
        obtain ⟨s₁, hs₁⟩ := hcreated.mp hcr
        obtain ⟨rfl, _, _⟩ := (hbranch _ _ hs₁).mp rfl
        obtain ⟨_, _, hfit, hused⟩ := claimBlocks_new_eq_some hfree hreqle hc
        -- the blocks claimed are the ones the first writes go to
        have hreqb : (requiredBlocks (call.final none)).toNat
            = blocksFor 4096 (call.offset.toNat + call.data.length) :=
          toNat_requiredBlocks_new (by omega)
        have hlt := before.partitionHeader.totalBlocks.toNat_lt
        have hus := PartitionHeader.toNat_used hfree
        have hws : onDisk (callWrites before call.path call.data call.offset none bytes
            after.partitionHeader) = _ :=
          onDisk_callWrites_new before call.path (by omega) after.partitionHeader (by omega) bytes
        intro b hb
        have hblocks : requests = _ := List.append_cancel_left hlog
        rw [hws] at hblocks
        simp only [Visit.blocks, hblocks, hreqb] at hb
        obtain ⟨hge, hlt'⟩ := mem_newWrites hb
        rw [hused, hreqb]
        exact ⟨hge, hlt'⟩

/-- **The blocks of new files never collide.** -/
theorem extents_apart (P : Platform σ) {fs₀ : AbtrFS} (s₀ : σ) {visits : List Visit}
    (h1 : 1 ≤ fs₀.partitionHeader.used.toNat)
    (h2 : fs₀.partitionHeader.used.toNat ≤ fs₀.partitionHeader.totalBlocks.toNat)
    (h : Run (WriteStep P) (fs₀, s₀, []) visits y) :
    (∀ v ∈ visits, v.after.partitionHeader.freeBlocksCount ≤ v.before.partitionHeader.freeBlocksCount
        ∧ v.after.partitionHeader.freeBlocksCount ≤ v.after.partitionHeader.totalBlocks)
      ∧ (∀ v ∈ visits, v.created = true → ∀ b ∈ v.blocks,
          1 ≤ b ∧ b < fs₀.partitionHeader.totalBlocks.toNat)
      ∧ visits.Pairwise fun v w => v.created = true → w.created = true → v.blocks.Disjoint w.blocks := by
  have hfree : fs₀.partitionHeader.freeBlocksCount.toNat ≤ fs₀.partitionHeader.totalBlocks.toNat := by
    -- were there more free blocks than blocks, the difference would wrap to a larger number
    have hsub : fs₀.partitionHeader.used.toNat = _ := UInt64.toNat_sub _ _
    have hlt := fs₀.partitionHeader.freeBlocksCount.toNat_lt
    omega
  have hstart : Counts fs₀.partitionHeader.totalBlocks.toNat fs₀ := ⟨rfl, hfree, h1⟩
  obtain ⟨hsound, _⟩ := h.labels (I := fun x => Counts fs₀.partitionHeader.totalBlocks.toNat x.1)
    (P := Visit.Sound fs₀.partitionHeader.totalBlocks.toNat) (fun x v y => WriteStep.sound) hstart
  refine ⟨?_, ?_, ?_⟩
  · intro v hv
    rw [UInt64.le_iff_toNat_le, UInt64.le_iff_toNat_le, (hsound v hv).after.totalBlocks]
    exact ⟨(hsound v hv).free, (hsound v hv).after.free_le⟩
  · intro v hv hc b hb
    obtain ⟨hge, hlt⟩ := (hsound v hv).blocks hc b hb
    have hpos := (hsound v hv).before.used
    have hused := (hsound v hv).after.toNat_used
    constructor
    · omega
    · omega
  · have hpairs : visits.Pairwise fun v w =>
        v.after.partitionHeader.used.toNat ≤ w.before.partitionHeader.used.toNat := by
      refine (@Run.pairwise _ _ _ (fun x => Counts fs₀.partitionHeader.totalBlocks.toNat x.1) _ _ _
        (fun x => x.1.partitionHeader.used.toNat) _ _ ?_ h hstart).1
      intro x v y hstep hx
      obtain ⟨hv, hy⟩ := hstep.sound hx
      have hused := hx.toNat_used
      have hused' := hy.toNat_used
      have hle := hv.free
      rw [hstep.before, hstep.after] at hle ⊢
      exact ⟨Nat.le_refl _, Nat.le_refl _, by omega, hy⟩
    refine List.Pairwise.imp_of_mem (fun hv hw hle hcv hcw => ?_) hpairs
    intro b hbv hbw
    have hlt := ((hsound _ hv).blocks hcv b hbv).2
    have hge := ((hsound _ hw).blocks hcw b hbw).1
    omega

/-- A device that takes every write and gives back nothing. -/
def forgetful : Platform Unit where
  operatorNew _ := pure ()
  submitRead _ _ := pure (false, Bytes.zero)
  submitWrite _ _ _ := pure true
  walkBound := 1

/-- Two calls, one after the other. -/
def writeTwo (P : Platform σ) (fs : AbtrFS) (call call' : WriteCall) : Prog σ AbtrFS := do
  let r ← writeFile P fs call.path call.data call.offset
  let r' ← writeFile P r.2 call'.path call'.data call'.offset
  pure r'.2

/-- Two files on a device that loses both. -/
theorem extents_apart_forgetful :
    ∃ (v w : Visit) (y : AbtrFS × Unit × Requests),
      Run (WriteStep forgetful) (layFs [], (), []) [v, w] y
        ∧ (v.created = true → w.created = true → v.blocks.Disjoint w.blocks) := by
  have hend : Prog.stopped ((writeTwo (logging forgetful) (layFs []) ⟨Path.ofBytes [0x61], [1], 0⟩
      ⟨Path.ofBytes [0x62], [2], 4095⟩).run ((), [])) = none := by decide +kernel
  rcases hrun : (writeTwo (logging forgetful) (layFs []) ⟨Path.ofBytes [0x61], [1], 0⟩
      ⟨Path.ofBytes [0x62], [2], 4095⟩).run ((), []) with ⟨r | fs, s⟩
  · rw [hrun] at hend
    cases hend
  · obtain ⟨⟨_, fs₁⟩, s₁, h₁, hrest⟩ := bind_eq_ok hrun
    obtain ⟨⟨_, fs₂⟩, s₂, h₂, _⟩ := bind_eq_ok hrest
    obtain ⟨v, _, hv⟩ := exists_visit ⟨Path.ofBytes [0x61], [1], 0⟩ (x := (layFs [], (), []))
      (by decide) h₁
    obtain ⟨w, _, hw⟩ := exists_visit ⟨Path.ofBytes [0x62], [2], 4095⟩ (x := (fs₁, s₁)) (by decide) h₂
    have htwo := (Run.start.step hv).step hw
    refine ⟨v, w, _, htwo, ?_⟩
    have hpairs := (extents_apart forgetful () (by decide +kernel) (by decide +kernel) htwo).2.2
    exact List.rel_of_pairwise_cons hpairs (by simp)

end AlopexOS
