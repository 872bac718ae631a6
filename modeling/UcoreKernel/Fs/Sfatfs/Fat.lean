import UcoreKernel.Lib.Counting
import UcoreKernel.Lib.IndexChain

/-!
The allocation table of the simple FAT file system: the block map of
`kern-module/mod-sfatfs/sfatfs_inode.c`.

The blocks of a file are a list that is threaded through the table. A write or a longer size appends
blocks, and a shorter size takes them off again; neither touches the number of unused blocks in the
superblock.
-/

namespace UcoreKernel.Sfatfs

open Function List

/-- The table: what stands at the number of each block. -/
abbrev Fat := ℕ → ℕ

/-- `SFATFS_BLK_NENTRY` -/
def blkNentry : ℕ := 2048

def fatFree : ℕ := 0x0000

def fatReserve : ℕ := 0x0001

def fatEof : ℕ := 0xffff

/-- The entries that are marked free, as `sfatfs_do_mount` counts them. -/
def freeEntries (fat : Fat) : ℕ := ∑ i ∈ Finset.range blkNentry, if fat i = fatFree then 1 else 0

/-- The errors of the file system. -/
inductive Err where
  | inval
  | noMem
  | tooBig
  | exists_
  | noEnt
  | isDir
deriving DecidableEq

/-- `sfatfs_bmap_findfree_nolock` -/
def bmapFindfree (fat : Fat) : Option ℕ := (List.range blkNentry).find? fun i => fat i = fatFree

/-- How the walk of `sfatfs_bmap_load_nolock` ends: at the block, at the last block of the list with one
step to go, or too early. -/
inductive Walk where
  | found (pclu : ℕ)
  | append (pclu : ℕ)
  | tooLarge
deriving DecidableEq

/-- The walk, with the number of steps to go. -/
def bmapWalk (fat : Fat) : ℕ → ℕ → Walk
  | 0, pclu => .found pclu
  | n + 1, pclu =>
    if fat pclu = fatEof then if n = 0 then .append pclu else .tooLarge
    else bmapWalk fat n (fat pclu)

/-- `sfatfs_bmap_load_nolock`: the table and the number of the block. -/
def bmapLoad (fat : Fat) (firstCluster index : ℕ) : Except Err (Fat × ℕ) :=
  match bmapWalk fat index firstCluster with
  | .found pclu => .ok (fat, pclu)
  | .append pclu =>
    match bmapFindfree fat with
    | none => .error .noMem
    | some ino => .ok (update (update fat pclu ino) ino fatEof, ino)
  | .tooLarge => .error .inval

/-- The walk of `sfatfs_bmap_truncate_nolock` to the last two blocks, with at most `fuel` steps. -/
def truncWalk (fat : Fat) : ℕ → ℕ → ℕ → Option (ℕ × ℕ)
  | 0, _, _ => none
  | fuel + 1, pclu, nclu =>
    if fat nclu ≠ fatEof then truncWalk fat fuel nclu (fat nclu) else some (pclu, nclu)

/-- `sfatfs_bmap_truncate_nolock`: the table, and whether the file has a single block, which it keeps.
There is no result if the list has no end. -/
def bmapTruncate (fat : Fat) (firstCluster : ℕ) : Option (Fat × Bool) :=
  if fat firstCluster = fatEof then some (fat, true)
  else
    match truncWalk fat blkNentry firstCluster (fat firstCluster) with
    | none => none
    | some (pclu, nclu) =>
      some (update (update fat pclu fatEof) nclu fatFree, false)

/-! ### Counting -/

variable {fat fat' : Fat} {firstCluster index i v : ℕ}

lemma freeEntries_le (fat : Fat) : freeEntries fat ≤ blkNentry := by
  have h : ∑ i ∈ Finset.range blkNentry, (if fat i = fatFree then 1 else 0) ≤
      ∑ i ∈ Finset.range blkNentry, 1 := Finset.sum_le_sum fun i _ => by split_ifs <;> simp
  rwa [Finset.sum_const, Finset.card_range, smul_eq_mul, mul_one] at h

/-- A table that is free from an entry on. -/
lemma freeEntries_of_iff {k : ℕ} (h : ∀ i, fat i = fatFree ↔ k ≤ i) : freeEntries fat = blkNentry - k := by
  simp only [freeEntries, h]
  generalize blkNentry = n
  rw [← Finset.card_filter, ← Nat.card_Ico k n]
  congr 1
  ext i
  simp [and_comm]

/-- An entry gets another value. -/
lemma freeEntries_update (hi : i < blkNentry) (fat : Fat) (v : ℕ) :
    freeEntries (update fat i v) + (if fat i = fatFree then 1 else 0) =
      freeEntries fat + if v = fatFree then 1 else 0 :=
  Counting.sum_update_add (Finset.mem_range.mpr hi) (fun e => if e = fatFree then 1 else 0) fat v

/-- An entry that was taken stays so. -/
lemma freeEntries_update_of_ne (hi : fat i ≠ fatFree) (hv : v ≠ fatFree) :
    freeEntries (update fat i v) = freeEntries fat := by
  refine Finset.sum_congr rfl fun j _ => ?_
  obtain rfl | hj := eq_or_ne j i
  · simp [hi, hv]
  · rw [update_of_ne hj]

lemma bmapFindfree_some (h : bmapFindfree fat = some i) : i < blkNentry ∧ fat i = fatFree := by
  grind [bmapFindfree]

/-- A free entry is taken. -/
lemma freeEntries_take (hi : i < blkNentry) (hfree : fat i = fatFree) :
    freeEntries (update fat i fatEof) + 1 = freeEntries fat := by
  have h := freeEntries_update hi fat fatEof
  rw [if_pos hfree, if_neg (by decide)] at h
  exact h.trans (add_zero _)

variable {pclu p : ℕ}

lemma bmapWalk_append {n : ℕ} (h : bmapWalk fat n pclu = .append p) : fat p = fatEof := by
  induction n generalizing pclu with
  | zero => cases h
  | succ n ih => grind [bmapWalk]

/-- Loading a block leaves the table as it is, or takes one free entry. The first entry is reserved. -/
lemma bmapLoad_cases (h0 : fat 0 ≠ fatFree) (h : bmapLoad fat firstCluster index = .ok (fat', p)) :
    fat' = fat ∨ (freeEntries fat' + 1 = freeEntries fat ∧ fat' 0 ≠ fatFree) := by
  rw [bmapLoad] at h
  cases hwalk : bmapWalk fat index firstCluster with
  | found pclu =>
    rw [hwalk] at h
    cases h
    exact .inl rfl
  | tooLarge =>
    rw [hwalk] at h
    cases h
  | append pclu =>
    rw [hwalk] at h
    have heof := bmapWalk_append hwalk
    cases hfind : bmapFindfree fat with
    | none =>
      rw [hfind] at h
      cases h
    | some ino =>
      simp only [hfind, Except.ok.injEq, Prod.mk.injEq] at h
      obtain ⟨rfl, -⟩ := h
      obtain ⟨hlt, hfree⟩ := bmapFindfree_some hfind
      have hne : pclu ≠ ino := fun hEq => by
        rw [hEq, hfree] at heof
        exact absurd heof (by decide)
      have hino : ino ≠ fatFree := fun hEq => h0 (by rw [hEq] at hfree; exact hfree)
      have hpclu : fat pclu ≠ fatFree := by
        rw [heof]
        decide
      refine .inr ⟨?_, ?_⟩
      · grind [freeEntries_take, freeEntries_update_of_ne]
      · grind

/-! ### Truncating -/

/-- The blocks of a file. -/
structure Blocks (fat : Fat) (firstCluster : ℕ) (l : List ℕ) : Prop where
  chain : IndexChain fat fatEof firstCluster l
  nonempty : l ≠ []
  nodup : l.Nodup
  lt : ∀ i ∈ l, i < blkNentry
  used : ∀ i ∈ l, fat i ≠ fatFree

/-- The walk ends at the last two blocks. -/
lemma truncWalk_eq {fuel nclu : ℕ} {rest : List ℕ}
    (hc : IndexChain fat fatEof pclu (pclu :: nclu :: rest)) (hfuel : rest.length < fuel) :
    ∃ l i j, pclu :: nclu :: rest = l ++ [i, j] ∧ truncWalk fat fuel pclu nclu = some (i, j) := by
  induction rest generalizing pclu nclu fuel with
  | nil =>
    obtain ⟨fuel, rfl⟩ : ∃ n, fuel = n + 1 := ⟨fuel - 1, by omega⟩
    have hend : fat nclu = fatEof := hc.2.2.2.2
    refine ⟨[], pclu, nclu, rfl, ?_⟩
    rw [truncWalk, if_neg (by simp [hend])]
  | cons k rest ih =>
    obtain ⟨fuel, rfl⟩ : ∃ n, fuel = n + 1 := ⟨fuel - 1, by omega⟩
    grind [IndexChain, truncWalk]

variable {l : List ℕ}

/-- The first block is in the table. -/
lemma Blocks.firstCluster_lt (hb : Blocks fat firstCluster l) : firstCluster < blkNentry := by
  match l, hb.nonempty with
  | p :: _, _ =>
    rw [hb.chain.1]
    exact hb.lt p (.head _)

/-- A list of blocks is no longer than the table. -/
lemma Blocks.length_le (hb : Blocks fat firstCluster l) : l.length ≤ blkNentry := by
  have hsub : l ⊆ range blkNentry := fun i hi => mem_range.mpr (hb.lt i hi)
  have hlen := (hb.nodup.subperm hsub).length_le
  rwa [length_range] at hlen

variable {j : ℕ}

section

variable (hb : Blocks fat firstCluster (l ++ [i, j]))
include hb

/-- The last two blocks are different, and neither comes earlier. -/
lemma Blocks.last_two_ne : i ≠ j ∧ i ∉ l ∧ j ∉ l := by
  obtain ⟨-, hpair, hdisj⟩ := nodup_append.mp hb.nodup
  grind

/-- The last block is freed and the one before it becomes the last. -/
lemma Blocks.dropLast : Blocks (update (update fat i fatEof) j fatFree) firstCluster (l ++ [i]) := by
  obtain ⟨hne, hil, hjl⟩ := hb.last_two_ne
  have hsub : (l ++ [i]).Sublist (l ++ [i, j]) := List.Sublist.append_left (by simp) l
  refine {
    chain := hb.chain.dropLast hil hjl ?_ ?_
    nonempty := by simp
    nodup := hb.nodup.sublist hsub
    lt := fun k hk => hb.lt k (hsub.subset hk)
    used := fun k hk => ?_ }
  · grind
  · rw [update_of_ne hne, update_self]
  · by_cases hki : k = i
    · rw [hki, update_of_ne hne, update_self]
      decide
    · have hkl : k ∈ l := by simpa [hki] using hk
      have hkj : k ≠ j := fun hEq => hjl (hEq ▸ hkl)
      rw [update_of_ne hkj, update_of_ne hki]
      exact hb.used k (hsub.subset hk)

/-- Freeing the last block adds one free entry. -/
lemma Blocks.freeEntries_dropLast :
    freeEntries (update (update fat i fatEof) j fatFree) = freeEntries fat + 1 := by
  have hused : update fat i fatEof j ≠ fatFree := by
    rw [update_of_ne hb.last_two_ne.1.symm]
    exact hb.used j (by simp)
  have h := freeEntries_update (hb.lt j (by simp)) (update fat i fatEof) fatFree
  rw [if_neg hused, if_pos rfl, freeEntries_update_of_ne (hb.used i (by simp)) (by decide)] at h
  exact (add_zero _).symm.trans h

end

/-- Truncating a file of one block changes nothing; otherwise the last block is freed. -/
lemma bmapTruncate_spec (hb : Blocks fat firstCluster l) :
    l.length = 1 ∧ bmapTruncate fat firstCluster = some (fat, true) ∨
      ∃ l' i j, l = l' ++ [i, j] ∧ bmapTruncate fat firstCluster =
        some (update (update fat i fatEof) j fatFree, false) := by
  match l, hb.nonempty with
  | [p], _ =>
    obtain ⟨rfl, -, hend⟩ := hb.chain
    have heof : fat firstCluster = fatEof := hend
    exact .inl ⟨rfl, by rw [bmapTruncate, if_pos heof]⟩
  | p :: n :: rest, _ =>
    have hp : firstCluster = p := hb.chain.1
    subst hp
    have hn : fat firstCluster = n := hb.chain.2.2.1
    have hne : fat firstCluster ≠ fatEof := by
      rw [hn]
      exact hb.chain.2.2.2.1
    have hfuel : rest.length < blkNentry := by
      have hlen := hb.length_le
      simp only [length_cons] at hlen
      omega
    obtain ⟨l', i, j, hl, hwalk⟩ := truncWalk_eq hb.chain hfuel
    grind [bmapTruncate]

end UcoreKernel.Sfatfs
