import AlopexOS.Abtrfs.Lookup

/-!
# `Abtrfs.Identity` — what makes two paths one file

The name tree goes by the segments of a path, the walk by its bytes. Two paths with the same segments are
one node of the tree; on the disk they are one file exactly when they are the same string, or when neither
has a file and none can be made.
-/

namespace AlopexOS

open Packed ByteString CString Prog

variable {c : Conditions} {fs fs' : AbtrFS} {p q : Path} {files : List File} {f : File}
  {data : List UInt8} {m m' : Machine}

/-! ## One file for two paths -/

/-- The two paths are one file: the walk comes to one header for both, or to none for either, and a file
    that is created under `p` is the one `q` resolves to, with the bytes that were written. -/
structure OneFile (fs : AbtrFS) (m : Machine) (files : List File) (p q : Path) (data : List UInt8) :
    Prop where
  found : ∀ c : Conditions, (∀ k, c.readOk k = true) → ∃ o,
    Runs c.Generous (findFileHeader (honest c) fs p) m (fun o' _ => o' = o)
      ∧ Runs c.Generous (findFileHeader (honest c) fs q) m (fun o' _ => o' = o)
  created : (∀ f ∈ files, f.name ≠ p.str) → ∀ c : Conditions, (∀ k, c.readOk k = true) → ∀ fs' m',
    (writeFile (honest c) fs p data 0).run m = (.ok (.success, fs'), m') →
      ∃ f a, f.content = data ∧ Resolves c fs' m' q f a

/-- A path that names no file is not found. -/
theorem Volume.runs_findFileHeader_none (hvol : Volume fs m.disk files) (hm : ∀ f ∈ files, ¬ f.Named p) :
    Runs c.Generous (findFileHeader (honest c) fs p) m (fun o _ => o = none) := by
  refine (runs_findFileHeader (hvol.front p)).imp ?_
  rintro o m₁ ⟨_, hs⟩
  exact hs.eq_none hm

/-- One that does name a file is found. -/
theorem WellLaidOut.runs_findFileHeader_some (hvol : WellLaidOut fs m.disk files)
    (hf : f ∈ files) (hm : f.Named p) (hread : ∀ k, c.readOk k = true) :
    ∃ h, Runs c.Generous (findFileHeader (honest c) fs p) m (fun o _ => o = some h) := by
  obtain ⟨pre, post, rfl⟩ := List.append_of_mem hf
  refine ⟨⟨m.disk (1 + spanAll pre)⟩, (runs_findFileHeader (hvol.front p)).imp ?_⟩
  rintro o m₁ ⟨_, hs⟩
  exact hs.eq_some (not_named_of_distinct hvol.distinct hm.1) hm hread

/-! ## The same string -/

/-- **Paths that are the same string are one file**, unless a new file is so large that its count of blocks
    wraps. -/
theorem oneFile_of_str_eq (hvol : WellLaidOut fs m.disk files) (hstr : p.str = q.str)
    (hlen : p.str.length ≤ 254) (hp : chopPath p ≠ []) (hq : chopPath q ≠ [])
    (hfit : (∃ f ∈ files, f.name = p.str) ∨ data.length + 4096 ≤ 2 ^ 64 ∨ NotCreated fs data 0) :
    OneFile fs m files p q data := by
  have hnamed : ∀ f : File, f.Named p ↔ f.Named q := fun f => by
    unfold File.Named
    rw [hstr]
  refine ⟨?_, ?_⟩
  · intro c hread
    by_cases hin : ∃ f ∈ files, f.Named p
    · obtain ⟨f, hf, hm⟩ := hin
      obtain ⟨pre, post, rfl⟩ := List.append_of_mem hf
      have hpre := not_named_of_distinct hvol.distinct hm.1
      have hpre' : ∀ g ∈ pre, ¬ g.Named q := fun g hg hn => hpre g hg ((hnamed g).mpr hn)
      exact ⟨_, ((hvol.front p).resolves hvol.free_le hp hpre hm hread).found,
        ((hvol.front q).resolves hvol.free_le hq hpre' ((hnamed f).mp hm) hread).found⟩
    · have hno : ∀ f ∈ files, ¬ f.Named p := fun f hf hm => hin ⟨f, hf, hm⟩
      have hno' : ∀ f ∈ files, ¬ f.Named q := fun f hf hm => hin ⟨f, hf, (hnamed f).mpr hm⟩
      exact ⟨none, hvol.runs_findFileHeader_none hno, hvol.runs_findFileHeader_none hno'⟩
  · intro habsent c hread fs' m' hrun
    have hno : ∀ f ∈ files, ¬ f.Named p := fun f hf hm => habsent f hf hm.1.symm
    rcases hfit with ⟨f, hf, hname⟩ | hsize | hcan
    · exact absurd hname (habsent f hf)
    · obtain ⟨f, hname, hcontent, hvol'⟩ := volume_of_success hvol.toVolume hp hno hrun
      have hzero : (0 : UInt64).toNat + data.length = data.length := Nat.zero_add _
      rw [if_pos (by rw [hzero]; exact hsize)] at hcontent
      rw [List.take_of_length_le (Nat.le_succ_of_le hlen), hstr] at hname
      have hno' : ∀ f ∈ files, ¬ f.Named q := fun f hf hm => hno f hf ((hnamed f).mpr hm)
      exact ⟨f, _, hcontent, (hvol'.front q).resolves hvol'.free_le hq hno'
        ⟨hname.symm, by rw [← hstr]; exact hlen⟩ hread⟩
    · exact (not_created hvol.toVolume hp hno hcan hrun).elim

/-- So large a file reads back as nothing. -/
theorem not_oneFile_of_wrap (hvol : WellLaidOut fs m.disk files) (hlen : p.str.length ≤ 254)
    (hp : chopPath p ≠ []) (hstr : p.str = q.str) (hq : chopPath q ≠ []) (habsent : ∀ f ∈ files, f.name ≠ p.str)
    (hwrap : ¬ data.length + 4096 ≤ 2 ^ 64) (hcan : ¬ NotCreated fs data 0) :
    ¬ OneFile fs m files p q data := by
  intro hone
  have hno : ∀ f ∈ files, ¬ f.Named p := fun f hf hm => habsent f hf hm.1.symm
  obtain ⟨fs', m', hrun⟩ := creates hvol.toVolume hp hno hcan
  obtain ⟨f, hname, hcontent, hvol'⟩ := volume_of_success hvol.toVolume hp hno hrun
  obtain ⟨f', a, hdata, hres⟩ := hone.created habsent _ (fun _ => rfl) fs' m' hrun
  have hzero : (0 : UInt64).toNat + data.length = data.length := Nat.zero_add _
  rw [if_neg (by rw [hzero]; exact hwrap)] at hcontent
  rw [List.take_of_length_le (Nat.le_succ_of_le hlen), hstr] at hname
  have hno' : ∀ f ∈ files, ¬ f.Named q := fun f hf hm => habsent f hf (by rw [hstr]; exact hm.1.symm)
  have hread : Reads (Conditions.ample fun _ => true) fs' m' q _ := reads_volume hvol' (fun _ => rfl) q
  rw [readResult_append_self hq hno' ⟨hname.symm, by rw [← hstr]; exact hlen⟩, hcontent] at hread
  have hnil := Except.ok.inj (hread.unique (Conditions.ample_generous _) hres.read)
  rw [hdata] at hnil
  rw [← hnil] at hwrap
  exact hwrap (by decide)

/-! ## Different strings -/

/-- **Different strings are never one file** when one of them has a file or can get one. -/
theorem absent_of_oneFile (hvol : WellLaidOut fs m.disk files) (hne : p.str ≠ q.str)
    (hlenp : p.str.length ≤ 254) (hlenq : q.str.length ≤ 254) (hone : OneFile fs m files p q data) :
    ∀ f ∈ files, f.name ≠ p.str ∧ f.name ≠ q.str := by
  obtain ⟨o, hop, hoq⟩ := hone.found (Conditions.ample fun _ => true) (fun _ => rfl)
  have hG := Conditions.ample_generous fun _ => true
  obtain ⟨o₁, s, hrunp, h₁⟩ := hop.returns hG
  obtain ⟨o₂, t, hrunq, h₂⟩ := hoq.returns hG
  -- a header that both come to would carry both strings
  have hnone : ∀ h, ¬ o = some h := by
    rintro h rfl
    rw [h₁] at hrunp
    rw [h₂] at hrunq
    exact findFileHeader_ne hrunp hrunq hne rfl
  intro f hf
  constructor
  · intro hname
    obtain ⟨h, hfound⟩ := hvol.runs_findFileHeader_some (c := Conditions.ample fun _ => true) hf
      ⟨hname.symm, hlenp⟩ (fun _ => rfl)
    exact hnone h (h₁.symm.trans (hfound.returned hrunp))
  · intro hname
    obtain ⟨h, hfound⟩ := hvol.runs_findFileHeader_some (c := Conditions.ample fun _ => true) hf
      ⟨hname.symm, hlenq⟩ (fun _ => rfl)
    exact hnone h (h₂.symm.trans (hfound.returned hrunq))

theorem notCreated_of_oneFile (hvol : WellLaidOut fs m.disk files) (hne : p.str ≠ q.str)
    (hlenp : p.str.length ≤ 254) (hp : chopPath p ≠ [])
    (habsent : ∀ f ∈ files, f.name ≠ p.str ∧ f.name ≠ q.str) (hone : OneFile fs m files p q data) :
    NotCreated fs data 0 := by
  by_contra hcan
  have hno : ∀ f ∈ files, ¬ f.Named p := fun f hf hm => (habsent f hf).1 hm.1.symm
  obtain ⟨fs', m', hrun⟩ := creates hvol.toVolume hp hno hcan
  obtain ⟨f, hname, _, hvol'⟩ := volume_of_success hvol.toVolume hp hno hrun
  obtain ⟨f', a, _, hres⟩ := hone.created (fun f hf => (habsent f hf).1) _ (fun _ => rfl) fs' m' hrun
  rw [List.take_of_length_le (Nat.le_succ_of_le hlenp)] at hname
  -- the new file carries `p`, so `q` still names none
  have hno' : ∀ g ∈ files ++ [f], ¬ g.Named q := by
    refine List.forall_mem_append.mpr ⟨fun g hg hm => (habsent g hg).2 hm.1.symm, ?_⟩
    refine List.forall_mem_singleton.mpr fun hm => hne ?_
    rw [← hname, hm.1]
  obtain ⟨_, s, hfind, rfl⟩ := hres.found.returns (Conditions.ample_generous _)
  have hnone := (hvol'.runs_findFileHeader_none (c := Conditions.ample fun _ => true) hno').returned hfind
  cases hnone

/-! ## When two paths are one file -/

/-- **When two paths with the same segments are one file.** -/
theorem oneFile_iff (hvol : WellLaidOut fs m.disk files) (hlenp : p.str.length ≤ 254)
    (hlenq : q.str.length ≤ 254) (hchop : chopPath p = chopPath q) (hseg : chopPath p ≠ [])
    (data : List UInt8) :
    OneFile fs m files p q data ↔
      (p.str = q.str ∧ ((∃ f ∈ files, f.name = p.str) ∨ data.length + 4096 ≤ 2 ^ 64 ∨ NotCreated fs data 0))
      ∨ ((∀ f ∈ files, f.name ≠ p.str ∧ f.name ≠ q.str) ∧ NotCreated fs data 0) := by
  have hsegq : chopPath q ≠ [] := hchop ▸ hseg
  constructor
  · intro hone
    by_cases hstr : p.str = q.str
    · left
      refine ⟨hstr, ?_⟩
      by_contra hno
      simp only [not_or, not_exists, not_and] at hno
      obtain ⟨habsent, hwrap, hcan⟩ := hno
      exact not_oneFile_of_wrap hvol hlenp hseg hstr hsegq habsent hwrap hcan hone
    · right
      have habsent := absent_of_oneFile hvol hstr hlenp hlenq hone
      exact ⟨habsent, notCreated_of_oneFile hvol hstr hlenp hseg habsent hone⟩
  · rintro (⟨hstr, hfit⟩ | ⟨habsent, hcan⟩)
    · exact oneFile_of_str_eq hvol hstr hlenp hseg hsegq hfit
    · have hno : ∀ f ∈ files, ¬ f.Named p := fun f hf hm => (habsent f hf).1 hm.1.symm
      have hno' : ∀ f ∈ files, ¬ f.Named q := fun f hf hm => (habsent f hf).2 hm.1.symm
      refine ⟨fun c _ => ⟨none, hvol.runs_findFileHeader_none hno, hvol.runs_findFileHeader_none hno'⟩, ?_⟩
      intro _ c hread fs' m' hrun
      exact (not_created hvol.toVolume hseg hno hcan hrun).elim

/-- A path is one file with itself. -/
theorem oneFile_a :
    OneFile (layFs [(pathB, [7])]) (Machine.start (layDisk [(pathB, [7])])) (layFiles [(pathB, [7])]) pathA
      pathA [1] :=
  (oneFile_iff wellLaidOut_b (by rw [str_pathA]; decide) (by rw [str_pathA]; decide) rfl
    (chopPath_ne_nil (by rw [str_pathA]; decide)) [1]).mpr (Or.inl ⟨rfl, Or.inr (Or.inl (by decide))⟩)

/-- `a/b` and `a//b`. -/
def pathAB : Path := Path.ofBytes [0x61, slash, 0x62]

def pathASlashB : Path := Path.ofBytes [0x61, slash, slash, 0x62]

/-- **The same segments, and two files**: what is written under one path is not found under the other. -/
theorem sameSegments_twoFiles :
    WellLaidOut (layFs []) (layDisk []) []
    ∧ chopPath pathAB = chopPath pathASlashB ∧ chopPath pathAB ≠ []
    ∧ pathAB.str.length ≤ 254 ∧ pathASlashB.str.length ≤ 254
    ∧ ((writeThenRead (honest workingMachine) (layFs []) pathAB [1] 0 pathASlashB).run
        (Machine.start (layDisk []))).1 = .ok (.success, .error .fileNotFound)
    ∧ ¬ OneFile (layFs []) (Machine.start (layDisk [])) [] pathAB pathASlashB [1] := by
  have hvol : WellLaidOut (layFs []) (layDisk []) [] := wellLaidOut_layDisk (by simp) (by decide) .nil
  have hp : pathAB.str = [0x61, slash, 0x62] := str_ofBytes (by decide) (by decide)
  have hq : pathASlashB.str = [0x61, slash, slash, 0x62] := str_ofBytes (by decide) (by decide)
  have hseg : chopPath pathAB ≠ [] := chopPath_ne_nil (by rw [hp]; decide)
  refine ⟨hvol, by decide +kernel, hseg, by rw [hp]; decide, by rw [hq]; decide, by decide +kernel, ?_⟩
  intro hone
  have hcan : NotCreated (layFs []) [1] 0 :=
    notCreated_of_oneFile (m := Machine.start (layDisk [])) hvol (by rw [hp, hq]; decide) (by rw [hp]; decide)
      hseg (by simp) hone
  have hfree : (layFs []).partitionHeader.freeBlocksCount.toNat = 204799 := by decide +kernel
  unfold NotCreated at hcan
  rw [hfree] at hcan
  revert hcan
  decide

end AlopexOS
