import AlopexOS.Abtrfs.OneDevice

/-!
# `Abtrfs.Target` — the array `read_file` fills

`read_file` fills an array through the operations of its class alone. What these do depends on the array:
one that owns its storage grows, a view has storage that is not its own. Here `read_file` is written over
any array; over one that owns its storage it is `readFile`.
-/

namespace AlopexOS

open Packed Prog

/-- What `read_file` does with the caller's array. -/
structure Target (σ β : Type) where
  /-- `*data = empty_result`. -/
  assignEmpty : β → Prog σ β
  resize : β → UInt64 → Prog σ β
  /-- The bytes assigned one by one, from the first on. -/
  assign : β → List UInt8 → Prog σ β
  /-- The copy that goes into the result. -/
  copy : β → Prog σ (List UInt8)

variable {σ τ β : Type}

/-- `read_file` with the array `data`: the result, and the array afterwards. -/
def readFileInto (P : Platform σ) (T : Target σ β) (fs : AbtrFS) (path : Path) (data : β)
    (readOffset maxReadSize : UInt64) : Prog σ (Except ErrorCode (List UInt8) × β) :=
  if fs.isMounted = false then pure (.error .deviceNotMounted, data)
  else if chopPath path = [] then pure (.error .invalidPath, data)
  else do
    P.operatorNew 4096
    let found ← findFileHeader P fs path
    match found with
    | none => pure (.error .fileNotFound, data)
    | some header =>
        if header.totalSize ≤ readOffset then do
          let data ← T.assignEmpty data
          pure (.ok [], data)
        else do
          let available := header.totalSize - readOffset
          let bytesToRead := if 0 < maxReadSize ∧ maxReadSize < available then maxReadSize else available
          let data ← T.resize data bytesToRead
          -- `block_buffer`
          P.operatorNew 4096
          let r ← readBlocks P fs header.payloadOffset header.sectionCount bytesToRead.toNat
            (readOffset / 4096) (readOffset % 4096).toNat bytesToRead.toNat Bytes.zero
          let data ← T.assign data r.2
          if r.1 = true then do
            let copied ← T.copy data
            pure (.ok copied, data)
          else pure (.error .ioError, data)

/-- An array that owns its storage. -/
def Dynarr.target (P : Platform σ) : Target σ Dynarr where
  assignEmpty d := pure d.clear
  resize d n := d.resize P n.toNat
  assign d bytes := pure (d.assign bytes)
  copy d := if d.elems = [] then pure [] else do
    P.operatorNew d.elems.length
    pure d.elems

theorem Dynarr.length_assign (d : Dynarr) (bytes : List UInt8) :
    (d.assign bytes).elems.length = d.elems.length := by
  simp only [Dynarr.assign, List.length_append, List.length_take, List.length_drop]
  omega

/-- The copy of an array that is not empty. -/
theorem Dynarr.copy_target {P : Platform σ} {d : Dynarr} {n : Nat} (h : d.elems.length = n) (hn : 0 < n) :
    (Dynarr.target P).copy d = (do P.operatorNew n; pure d.elems) := by
  have hne : d.elems ≠ [] := List.ne_nil_of_length_pos (by omega)
  simp only [Dynarr.target, hne, if_false, h]

/-- What follows a `resize` may count on the size. -/
theorem Dynarr.bind_resize_congr {P : Platform σ} {d : Dynarr} {n : Nat} {α : Type}
    {f g : Dynarr → Prog σ α} (h : ∀ d' : Dynarr, d'.elems.length = n → f d' = g d') :
    d.resize P n >>= f = d.resize P n >>= g := by
  unfold Dynarr.resize
  split
  · simp only [bind_assoc, pure_bind]
    exact bind_congr fun _ => h _ (length_resized _ _)
  · exact h _ (length_resized _ _)

/-- Something is read when the offset is in the file. -/
theorem bytesToRead_pos {total off max : UInt64} (h : ¬ total ≤ off) :
    0 < (if 0 < max ∧ max < total - off then max else total - off).toNat := by
  have hlt : off < total := UInt64.not_le.mp h
  have hsub := UInt64.toNat_sub_of_le _ _ (UInt64.le_of_lt hlt)
  rw [UInt64.lt_iff_toNat_lt] at hlt
  split
  · rename_i hmax
    exact UInt64.lt_iff_toNat_lt.mp hmax.1
  · omega

/-- **`readFile` fills an array that owns its storage.** -/
theorem readFile_some (P : Platform σ) (fs : AbtrFS) (path : Path) (d : Dynarr) (off max : UInt64) :
    readFile P fs path (some d) off max
      = readFileInto P (Dynarr.target P) fs path d off max >>= fun r => pure (r.1, some r.2) := by
  have hite : ∀ (c : Prop) [Decidable c] (x y : Prog σ (Except ErrorCode (List UInt8) × Dynarr)),
      ((if c then x else y) >>= fun r => pure (r.1, some r.2))
        = if c then x >>= fun r => pure (r.1, some r.2) else y >>= fun r => pure (r.1, some r.2) := by
    intro c _ x y
    split <;> rfl
  unfold readFile readFileInto
  simp only [hite, pure_bind, bind_assoc]
  congr 2
  refine bind_congr fun _ => bind_congr fun found => ?_
  cases found with
  | none => rfl
  | some header =>
      by_cases h0 : header.totalSize ≤ off
      · simp only [h0, if_true]
        rfl
      · have hpos := @bytesToRead_pos _ _ max h0
        simp only [h0, if_false, bind_assoc]
        generalize (if 0 < max ∧ max < header.totalSize - off then max else header.totalSize - off) = n
          at hpos ⊢
        refine Dynarr.bind_resize_congr fun target htarget => ?_
        refine bind_congr fun _ => bind_congr fun r => ?_
        have hlen : (target.assign r.2).elems.length = n.toNat := by
          rw [Dynarr.length_assign, htarget]
        have hassign : (Dynarr.target P).assign target r.2 = pure (target.assign r.2) := rfl
        rw [hassign, pure_bind, hite, bind_assoc, Dynarr.copy_target hlen hpos]
        simp only [bind_assoc, pure_bind]
        rfl

theorem run_readFile_some {P : Platform σ} {fs : AbtrFS} {path : Path} {d d' : Dynarr} {off max : UInt64}
    {res : Except ErrorCode (List UInt8)} {s s' : σ}
    (h : (readFileInto P (Dynarr.target P) fs path d off max).run s = (.ok (res, d'), s')) :
    (readFile P fs path (some d) off max).run s = (.ok (res, some d'), s') := by
  rw [readFile_some, run_bind, h]
  rfl

end AlopexOS
