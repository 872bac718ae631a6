import UcoreKernel.Fs.Sfatfs.Volume

/-!
The lists of blocks of the files of a simple FAT volume.

The lists stay apart, come to an end and do not meet the free entries, whatever is written or truncated:
a block that is appended was free, and a block that is taken off becomes free. A write, however, sets the size
of the file also if it could not load its first block. The size can then be beyond the blocks of the file.

* `separate_iff`: it stays so throughout a run exactly when no write of it begins beyond the blocks of its
  file, and no length that is truncated to wraps around.
-/

namespace UcoreKernel.Sfatfs

open UcoreKernel.Except (Ensures)
open Guarded Function List

variable {v v' : Vol} {fat fat' : Fat} {firstCluster : ℕ} {sin : Sin} {op : Op} {l l' : List ℕ}

/-! ### The list of one file -/

/-- The list `l` of a file has become `l'`: the blocks that came to it were free, those that left it are, and
the rest of the table is as it was. -/
structure Reshaped (fat fat' : Fat) (firstCluster : ℕ) (l l' : List ℕ) : Prop where
  blocks : Blocks fat' firstCluster l'
  fresh : ∀ i ∈ l', i ∈ l ∨ fat i = fatFree
  freed : ∀ i ∈ l, i ∉ l' → fat' i = fatFree
  frame : ∀ i, i ∉ l → i ∉ l' → fat' i = fat i
  reserved : fat 0 ≠ fatFree → fat' 0 ≠ fatFree

namespace Reshaped

lemma refl (h : Blocks fat firstCluster l) : Reshaped fat fat firstCluster l l :=
  ⟨h, fun _ hi => .inl hi, fun _ hi hn => absurd hi hn, fun _ _ _ => rfl, id⟩

variable (h : Reshaped fat fat' firstCluster l l')
include h

lemma trans {fat'' : Fat} {l'' : List ℕ}
    (h' : Reshaped fat' fat'' firstCluster l' l'') : Reshaped fat fat'' firstCluster l l'' where
  blocks := h'.blocks
  fresh i hi := by
    obtain hmem | hfree := h'.fresh i hi
    · exact h.fresh i hmem
    · by_cases hmem : i ∈ l'
      · exact h.fresh i hmem
      · by_cases hold : i ∈ l
        · exact .inl hold
        · exact .inr ((h.frame i hold hmem).symm.trans hfree)
  freed i hi hn := by
    by_cases hmem : i ∈ l'
    · exact h'.freed i hmem hn
    · rw [h'.frame i hmem hn]
      exact h.freed i hi hmem
  frame i hi hn := by
    by_cases hmem : i ∈ l'
    · -- the block came and left
      rw [h'.freed i hmem hn, (h.fresh i hmem).resolve_left hi]
    · rw [h'.frame i hmem hn, h.frame i hi hmem]
  reserved h0 := h'.reserved (h.reserved h0)

/-- The list of another file stays as it is, and apart. -/
lemma other {first : ℕ} {m : List ℕ} (hm : Blocks fat first m)
    (hdisj : m.Disjoint l) : Blocks fat' first m ∧ m.Disjoint l' := by
  have hnew : m.Disjoint l' := fun i him hil' => by
    obtain hil | hfree := h.fresh i hil'
    · exact hdisj him hil
    · exact hm.used i him hfree
  have hsame : ∀ i ∈ m, fat' i = fat i := fun i hi => h.frame i (hdisj hi ·) fun hil => hnew hi hil
  refine ⟨{ hm with
    chain := hm.chain.congr hsame
    used := fun i hi => ?_ }, hnew⟩
  rw [hsame i hi]
  exact hm.used i hi

end Reshaped

/-! ### Loading a block -/

variable {last index : ℕ}

/-- The walk along a list: to a block of it, to its last block, or too far. -/
lemma bmapWalk_eq {h : ℕ} (hc : IndexChain fat fatEof h (l ++ [last])) :
    bmapWalk fat index h = if hi : index < (l ++ [last]).length then .found (l ++ [last])[index]
      else if index = (l ++ [last]).length then .append last else .tooLarge := by
  induction l generalizing h index with
  | nil =>
    obtain ⟨rfl, -, hend⟩ := hc
    have heof : fat h = fatEof := hend
    obtain _ | _ | n := index
    · rfl
    all_goals simp [bmapWalk, heof]
  | cons i l ih =>
    obtain ⟨rfl, -, hrest⟩ := hc
    have hne : fat h ≠ fatEof := fun heof => by
      have hnil := hrest.eq_nil_iff.mpr heof
      simp at hnil
    cases index with
    | zero => rfl
    | succ n =>
      rw [bmapWalk, if_neg hne, ih hrest]
      grind

section

variable (hb : Blocks fat firstCluster l)
include hb

lemma Blocks.exists_last : ∃ l₀ last, l = l₀ ++ [last] :=
  ⟨l.dropLast, l.getLast hb.nonempty, (dropLast_append_getLast hb.nonempty).symm⟩

/-- A block that is there. -/
lemma bmapLoad_of_lt (hlt : index < l.length) : bmapLoad fat firstCluster index = .ok (fat, l[index]) := by
  obtain ⟨l0, last, rfl⟩ := hb.exists_last
  rw [bmapLoad, bmapWalk_eq hb.chain, dif_pos hlt]

/-- A block beyond the next one. -/
lemma bmapLoad_of_gt (hlt : l.length < index) : bmapLoad fat firstCluster index = .error .inval := by
  obtain ⟨l0, last, rfl⟩ := hb.exists_last
  rw [bmapLoad, bmapWalk_eq hb.chain, dif_neg hlt.not_gt, if_neg hlt.ne']

end

variable {ino : ℕ}

/-- A free block is appended. -/
lemma Blocks.concat (hb : Blocks fat firstCluster (l ++ [last])) (h0 : fat 0 ≠ fatFree)
    (hlt : ino < blkNentry) (hfree : fat ino = fatFree) :
    Reshaped fat (update (update fat last ino) ino fatEof) firstCluster (l ++ [last]) (l ++ [last, ino]) := by
  have hnot : ino ∉ l ++ [last] := fun hmem => hb.used ino hmem hfree
  have hne : last ≠ ino := fun hEq => hnot (by rw [hEq]; simp)
  have hlast : last ∉ l := fun hmem => by
    obtain ⟨-, -, hdisj⟩ := nodup_append.mp hb.nodup
    exact hdisj last hmem last (by simp) rfl
  have hino0 : ino ≠ fatFree := fun hEq => h0 (by rw [hEq] at hfree; exact hfree)
  have hat : update (update fat last ino) ino fatEof last = ino := by
    rw [update_of_ne hne, update_self]
  have hother : ∀ k, k ≠ last → k ≠ ino →
      update (update fat last ino) ino fatEof k = fat k := fun k hk hk' => by
    rw [update_of_ne hk', update_of_ne hk]
  have hsplit : l ++ [last, ino] = l ++ [last] ++ [ino] := by simp
  refine { blocks := ?_, fresh := fun i hi => ?_, freed := fun i hi hn => ?_, frame := fun i hi hn => ?_,
           reserved := fun _ => ?_ }
  · refine { chain := ?_, nonempty := by simp, nodup := ?_, lt := fun i hi => ?_, used := fun i hi => ?_ }
    · exact hb.chain.concat hlast (fun hmem => hnot (mem_append_left _ hmem))
        (hlt.trans (by decide)).ne hother hat (update_self ..)
    · rw [hsplit]
      exact nodup_append.mpr ⟨hb.nodup, nodup_singleton _, fun i hi j hj hEq =>
        hnot (by rw [← mem_singleton.mp hj, ← hEq]; exact hi)⟩
    · rw [hsplit, mem_append] at hi
      obtain hi | hi := hi
      · exact hb.lt i hi
      · rwa [mem_singleton.mp hi]
    · by_cases hi' : i = ino
      · rw [hi', update_self]
        decide
      · by_cases hl : i = last
        · rw [hl, hat]
          exact hino0
        · rw [hother i hl hi']
          exact hb.used i (by simpa [hl, hi'] using hi)
  · rw [hsplit, mem_append] at hi
    obtain hi | hi := hi
    · exact .inl hi
    · rw [mem_singleton.mp hi]
      exact .inr hfree
  · grind
  · grind
  · grind

section

variable (hb : Blocks fat firstCluster l) (h0 : fat 0 ≠ fatFree)
include hb h0

/-- The next block: one is appended, if there is one. -/
lemma bmapLoad_next : bmapLoad fat firstCluster l.length = .error .noMem ∨
      ∃ fat' ino, bmapLoad fat firstCluster l.length = .ok (fat', ino) ∧
        Reshaped fat fat' firstCluster l (l ++ [ino]) := by
  obtain ⟨l0, last, rfl⟩ := hb.exists_last
  rw [bmapLoad, bmapWalk_eq hb.chain, dif_neg (lt_irrefl _), if_pos rfl]
  cases hfind : bmapFindfree fat with
  | none => exact .inl rfl
  | some ino =>
    obtain ⟨hlt, hfree⟩ := bmapFindfree_some hfind
    refine .inr ⟨_, ino, rfl, ?_⟩
    rw [append_assoc]
    exact hb.concat h0 hlt hfree

/-- Loading a block that succeeds: the list has the block, and is as it was or has got it. -/
lemma bmapLoad_reshaped (h : bmapLoad fat firstCluster index = .ok (fat', ino)) :
    ∃ l', Reshaped fat fat' firstCluster l l' ∧ l.length ≤ l'.length ∧ index < l'.length := by
  obtain hlt | rfl | hgt := lt_trichotomy index l.length
  · rw [bmapLoad_of_lt hb hlt] at h
    cases h
    exact ⟨l, .refl hb, le_rfl, hlt⟩
  · obtain herr | ⟨fat1, ino1, hok, hre⟩ := bmapLoad_next hb h0
    · rw [herr] at h
      cases h
    · grind
  · rw [bmapLoad_of_gt hb hgt] at h
    cases h

end

/-! ### Growing and shrinking -/

/-- The blocks that a truncate appends: they are all there in the end, unless there are not enough. -/
lemma growLoop_spec (n : ℕ) {nblks : ℕ} (hb : Blocks fat firstCluster l) (h0 : fat 0 ≠ fatFree)
    (hle : nblks ≤ l.length) :
    ∃ l', Reshaped fat (growLoop firstCluster n nblks fat).1 firstCluster l l' ∧ l.length ≤ l'.length ∧
      ((growLoop firstCluster n nblks fat).2 = none → nblks + n ≤ l'.length) := by
  induction n generalizing fat nblks l with
  | zero => exact ⟨l, .refl hb, le_rfl, fun _ => hle⟩
  | succ n ih =>
    rw [growLoop]
    cases hload : bmapLoad fat firstCluster nblks with
    | error e => exact ⟨l, .refl hb, le_rfl, by simp⟩
    | ok r =>
      obtain ⟨fat1, ino⟩ := r
      obtain ⟨l1, hre, hlen, hlt⟩ := bmapLoad_reshaped hb h0 hload
      obtain ⟨l', hre', hlen', hall⟩ := ih hre.blocks (hre.reserved h0) (Nat.succ_le_of_lt hlt)
      refine ⟨l', hre.trans hre', hlen.trans hlen', fun h => ?_⟩
      have := hall h
      omega

/-- The last block is taken off. -/
lemma Blocks.reshaped_dropLast {i j : ℕ} (hb : Blocks fat firstCluster (l ++ [i, j])) :
    Reshaped fat (update (update fat i fatEof) j fatFree) firstCluster (l ++ [i, j]) (l ++ [i]) where
  blocks := hb.dropLast
  fresh k hk := .inl ((List.Sublist.append_left (by simp) l).subset hk)
  freed k hk hn := by grind
  frame k hk _ := by grind
  reserved h0 := by
    -- the block before it points to it, and is not free
    have hj : 0 ≠ j := fun hEq => hb.used i (by simp) (by rw [hb.chain.last_two.1, ← hEq]; rfl)
    rw [update_of_ne hj]
    by_cases hi : 0 = i
    · rw [← hi, update_self]
      decide
    · rwa [update_of_ne hi]

/-- The blocks that a truncate takes off; one stays. -/
lemma shrinkLoop_spec (n : ℕ) (hb : Blocks fat firstCluster l) :
    ∃ fat' l', shrinkLoop firstCluster n fat = .ok fat' ∧ Reshaped fat fat' firstCluster l l' ∧
      l.length ≤ l'.length + n := by
  induction n generalizing fat l with
  | zero => exact ⟨fat, l, rfl, .refl hb, le_rfl⟩
  | succ n ih =>
    rw [shrinkLoop, if_neg hb.firstCluster_lt.not_ge]
    obtain ⟨-, htrunc⟩ | ⟨l0, i, j, rfl, htrunc⟩ := bmapTruncate_spec hb
    · grind
    · rw [htrunc]
      obtain ⟨fat', l', hrun, hre, hlen⟩ := ih hb.dropLast
      refine ⟨fat', l', hrun, hb.reshaped_dropLast.trans hre, ?_⟩
      grind

/-! ### A transfer -/

/-- The blocks that `size` bytes need. -/
def clusters (size : ℕ) : ℕ := (size + blkSize - 1) / blkSize

variable {size : ℕ}

lemma clusters_le_iff {n : ℕ} : clusters size ≤ n ↔ size ≤ n * blkSize := by
  grind [clusters, blkSize]

/-- The blocks of a transfer from `pos` to `endpos` follow each other, and each part is in its block. -/
def Consecutive (endpos : ℕ) : ℕ → List (ℕ × ℕ) → Prop
  | pos, [] => pos = endpos
  | pos, (index, size) :: rest => index = pos / blkSize ∧ 0 < size ∧ pos % blkSize + size ≤ blkSize ∧
      Consecutive endpos (pos + size) rest

variable {pos endpos : ℕ} {bs : List (ℕ × ℕ)}

lemma Consecutive.le (h : Consecutive endpos pos bs) : pos ≤ endpos := by
  induction bs generalizing pos with
  | nil => exact le_of_eq h
  | cons p bs ih => exact (Nat.le_add_right ..).trans (ih h.2.2.2)

lemma consecutive_tail (hpos : pos % blkSize = 0) (hdiv : pos / blkSize = endpos / blkSize)
    (hle : pos ≤ endpos) : Consecutive endpos pos (tailBlock endpos) := by
  have hstart := Nat.div_add_mod pos blkSize
  have hend := Nat.div_add_mod endpos blkSize
  have hlt := Nat.mod_lt endpos (by decide : 0 < blkSize)
  rw [hdiv] at hstart
  rw [tailBlock]
  split_ifs with hmod
  · refine ⟨hdiv.symm, by omega, by omega, ?_⟩
    change pos + endpos % blkSize = endpos
    omega
  · change pos = endpos
    omega

lemma consecutive_mid (n : ℕ) (hpos : pos % blkSize = 0)
    (hn : pos / blkSize + n = endpos / blkSize) (hle : pos ≤ endpos) :
    Consecutive endpos pos (midBlocks (pos / blkSize) n ++ tailBlock endpos) := by
  induction n generalizing pos with
  | zero => exact consecutive_tail hpos hn hle
  | succ n ih =>
    have hdiv : (pos + blkSize) / blkSize = pos / blkSize + 1 := Nat.add_div_right pos (by decide)
    have hmod : (pos + blkSize) % blkSize = 0 := by rw [Nat.add_mod_right, hpos]
    have hnext : pos + blkSize ≤ endpos :=
      calc pos + blkSize = (pos / blkSize + 1) * blkSize := by grind [blkSize]
        _ ≤ endpos / blkSize * blkSize := Nat.mul_le_mul_right blkSize (by omega)
        _ ≤ endpos := Nat.div_mul_le_self endpos blkSize
    have hrest := ih hmod (by rw [hdiv]; omega) hnext
    rw [hdiv] at hrest
    rw [midBlocks, range'_succ, map_cons, cons_append]
    exact ⟨rfl, by decide, by rw [hpos]; omega, hrest⟩

variable {offset : ℕ}

/-- The blocks that a transfer goes through. -/
lemma consecutive_ioBlocks (hlt : offset < endpos) : Consecutive endpos offset (ioBlocks offset endpos) := by
  have hoff := Nat.div_add_mod offset blkSize
  have hend := Nat.div_add_mod endpos blkSize
  have hmod := Nat.mod_lt offset (by decide : 0 < blkSize)
  have hmod' := Nat.mod_lt endpos (by decide : 0 < blkSize)
  have hdiv : offset / blkSize ≤ endpos / blkSize := Nat.div_le_div_right hlt.le
  rw [ioBlocks]
  split_ifs with hblk hn
  · have hEq : offset / blkSize = endpos / blkSize := by omega
    rw [hEq] at hoff
    exact ⟨rfl, by omega, by omega, show offset + (endpos - offset) = endpos by omega⟩
  · have hnext : offset + (blkSize - offset % blkSize) = (offset / blkSize + 1) * blkSize := by
      grind
    have hdiv' : (offset / blkSize + 1) * blkSize / blkSize = offset / blkSize + 1 :=
      Nat.mul_div_cancel _ (by decide)
    have hle : (offset / blkSize + 1) * blkSize ≤ endpos :=
      (Nat.mul_le_mul_right blkSize (by omega)).trans (Nat.div_mul_le_self endpos blkSize)
    have hrest := consecutive_mid (endpos / blkSize - offset / blkSize - 1) (Nat.mul_mod_left _ _)
      (by rw [hdiv']; omega) hle
    rw [hdiv'] at hrest
    refine ⟨rfl, by omega, by omega, ?_⟩
    rw [hnext]
    exact hrest
  · exact consecutive_mid _ (not_not.mp hblk) (by omega) hlt.le

/-- A transfer: the list of the file has all blocks that were transferred; if there is none, nothing has
changed, and the first block was not found. -/
lemma ioLoop_spec (blocks : ℕ) (bs : List (ℕ × ℕ)) (hbs : Consecutive endpos pos bs)
    (hb : Blocks fat firstCluster l) (h0 : fat 0 ≠ fatFree) (alen : ℕ) :
    Ensures (· = .blkno) (ioLoop blocks firstCluster bs fat alen) fun r =>
      ∃ l' n, r.2.1 = alen + n ∧ pos + n ≤ endpos ∧ Reshaped fat r.1 firstCluster l l' ∧
        l.length ≤ l'.length ∧ (0 < n → clusters (pos + n) ≤ l'.length) ∧
        (n = 0 → r.1 = fat ∧ (pos < endpos → ∃ e, bmapLoad fat firstCluster (pos / blkSize) = .error e)) := by
  induction bs generalizing fat l pos alen with
  | nil =>
    have hend : pos = endpos := hbs
    exact ⟨l, 0, rfl, hend.le, .refl hb, le_rfl, fun h => absurd h (lt_irrefl 0), fun _ =>
      ⟨rfl, fun hlt => absurd hend hlt.ne⟩⟩
  | cons p bs ih =>
    obtain ⟨index, size⟩ := p
    obtain ⟨rfl, hsize, hin, hrest⟩ := hbs
    have hle := hrest.le
    rw [ioLoop]
    cases hload : bmapLoad fat firstCluster (pos / blkSize) with
    | error e =>
      exact ⟨l, 0, rfl, by omega, .refl hb, le_rfl, fun h => absurd h (lt_irrefl 0), fun _ =>
        ⟨rfl, fun _ => ⟨e, rfl⟩⟩⟩
    | ok r =>
      obtain ⟨fat1, ino⟩ := r
      obtain ⟨l1, hre, hlen, hlt⟩ := bmapLoad_reshaped hb h0 hload
      refine .ite (fun _ => ?_) fun _ => rfl
      refine (ih hrest hre.blocks (hre.reserved h0) (alen + size)).mono fun r' hr => ?_
      obtain ⟨l', n, hn, hend, hre', hlen', hall, hnone⟩ := hr
      refine ⟨l', size + n, by omega, by omega, hre.trans hre', hlen.trans hlen', fun _ => ?_,
        fun h => by omega⟩
      obtain rfl | hpos := eq_zero_or_pos n
      · rw [clusters_le_iff]
        grind [blkSize]
      · rw [← add_assoc]
        exact hall hpos

/-- A transfer whose first block is not found. -/
lemma ioLoop_of_error {blocks : ℕ} {e : Err} (hbs : Consecutive endpos pos bs)
    (hlt : pos < endpos) (hload : bmapLoad fat firstCluster (pos / blkSize) = .error e) :
    ioLoop blocks firstCluster bs fat 0 = .ok (fat, 0, some e) := by
  match bs, hbs with
  | [], hbs => exact absurd hbs hlt.ne
  | (index, size) :: bs, hbs => rw [ioLoop, hbs.1, hload]

/-! ### The files of a volume -/

/-- The entry is one of the directory, and not a directory. -/
def Vol.IsFile (v : Vol) (i : ℕ) : Prop := i < v.super.ndirentry ∧ (v.dinos i).isDir = false

/-- The lists of the files: each comes to an end, they are apart, and they are long enough for the sizes. -/
structure Lists (v : Vol) (c : ℕ → List ℕ) : Prop where
  blocks : ∀ i, v.IsFile i → Blocks v.fat (v.dinos i).firstCluster (c i)
  disjoint : ∀ i j, v.IsFile i → v.IsFile j → i ≠ j → (c i).Disjoint (c j)
  enough : ∀ i, v.IsFile i → clusters (v.dinos i).size ≤ (c i).length

/-- The lists of the files are apart, and long enough. -/
def Separate (v : Vol) : Prop := ∃ c, Lists v c

/-- The first entry of the table is reserved, and the inodes are those of entries. -/
structure Sound (v : Vol) : Prop where
  separate : Separate v
  reserved : v.fat 0 ≠ fatFree
  nodes : ∀ sin ∈ v.nodes, sin.ino < v.super.ndirentry

variable {c : ℕ → List ℕ} {i n : ℕ}

/-- Only the superblock, the table and the entries matter. -/
lemma Separate.congr (h : Separate v) (hsuper : v'.super = v.super) (hfat : v'.fat = v.fat)
    (hdinos : v'.dinos = v.dinos) : Separate v' := by
  obtain ⟨c, hc⟩ := h
  refine ⟨c, ?_, ?_, ?_⟩
  · rw [hfat, hdinos]
    simpa only [Vol.IsFile, hsuper, hdinos] using hc.blocks
  · simpa only [Vol.IsFile, hsuper, hdinos] using hc.disjoint
  · rw [hdinos]
    simpa only [Vol.IsFile, hsuper, hdinos] using hc.enough

/-- The list of a file is another one now, and its size fits. -/
lemma Lists.reshape (hc : Lists v c) (hi : v.IsFile i)
    (hre : Reshaped v.fat v'.fat (v.dinos i).firstCluster (c i) l')
    (hsize : clusters size ≤ l'.length) (hsuper : v'.super = v.super)
    (hdinos : v'.dinos = update v.dinos i { v.dinos i with size := size }) : Separate v' := by
  have hself : v'.dinos i = { v.dinos i with size := size } := by rw [hdinos, update_self]
  have hother : ∀ j, j ≠ i → v'.dinos j = v.dinos j := fun j hj => by
    rw [hdinos, update_of_ne hj]
  have hfile : ∀ j, v'.IsFile j → v.IsFile j := fun j hj => by
    by_cases hji : j = i
    · exact hji ▸ hi
    · rwa [Vol.IsFile, hsuper, hother j hji] at hj
  have hapart : ∀ j, v.IsFile j → j ≠ i → Blocks v'.fat (v.dinos j).firstCluster (c j) ∧ (c j).Disjoint l' :=
    fun j hj hji => hre.other (hc.blocks j hj) (hc.disjoint j i hj hi hji)
  refine ⟨update c i l', fun j hj => ?_, fun j k hj hk hjk => ?_, fun j hj => ?_⟩
  · by_cases hji : j = i
    · rw [hji, update_self, hself]
      exact hre.blocks
    · grind
  · by_cases hji : j = i
    · have hki : k ≠ i := fun hki => hjk (hji.trans hki.symm)
      rw [hji, update_self, update_of_ne hki]
      exact (hapart k (hfile k hk) hki).2.symm
    · rw [update_of_ne hji]
      by_cases hki : k = i
      · grind
      · rw [update_of_ne hki]
        exact hc.disjoint j k (hfile j hj) (hfile k hk) hjk
  · by_cases hji : j = i
    · rw [hji, update_self, hself]
      exact hsize
    · rw [update_of_ne hji, hother j hji]
      exact hc.enough j (hfile j hj)

/-- An operation of a file that changes its list, and leaves its size. -/
lemma Sound.setFat (h : Sound v) (hc : Lists v c) (hi : v.IsFile i)
    (hre : Reshaped v.fat fat (v.dinos i).firstCluster (c i) l') (hlen : (c i).length ≤ l'.length) :
    Sound { v with fat := fat } where
  separate := hc.reshape hi hre ((hc.enough i hi).trans hlen) rfl (update_eq_self i v.dinos).symm
  reserved := hre.reserved h.reserved
  nodes := h.nodes

/-- An operation of a file that changes its list and its size. -/
lemma Sound.setSize (h : Sound v) (hc : Lists v c) (hsin : sin ∈ v.nodes) (hi : v.IsFile sin.ino)
    (hre : Reshaped v.fat fat (v.dinos sin.ino).firstCluster (c sin.ino) l')
    (hsize : clusters size ≤ l'.length) : Sound (Sfatfs.setSize { v with fat := fat } n sin size) where
  separate := hc.reshape hi hre hsize rfl rfl
  reserved := hre.reserved h.reserved
  nodes := nodes_set h.nodes hsin

/-! ### One operation -/

/-- The first block of a write is not found, and the offset is beyond the blocks of the file. -/
def Overshoots (v : Vol) (sin : Sin) (offset : ℕ) : Prop :=
  match bmapLoad v.fat (v.dinos sin.ino).firstCluster (offset / blkSize) with
  | .ok _ => False
  | .error e => e = .inval ∨ offset % blkSize ≠ 0

/-- A block that is not found is beyond the list, or just behind it with no block left. -/
lemma overshoots_iff {e : Err} (hb : Blocks v.fat (v.dinos sin.ino).firstCluster l) (h0 : v.fat 0 ≠ fatFree)
    (hload : bmapLoad v.fat (v.dinos sin.ino).firstCluster (offset / blkSize) = .error e) :
    Overshoots v sin offset ↔ l.length < clusters offset := by
  have hdiv := Nat.div_add_mod offset blkSize
  rw [Overshoots, hload, ← not_le, clusters_le_iff, not_le]
  obtain hlt | hEq | hgt := lt_trichotomy (offset / blkSize) l.length
  · rw [bmapLoad_of_lt hb hlt] at hload
    cases hload
  · rw [hEq] at hload hdiv
    obtain herr | ⟨fat', ino, hok, -⟩ := bmapLoad_next hb h0
    · grind
    · rw [hok] at hload
      cases hload
  · grind [bmapLoad_of_gt, blkSize]

/-- The panics that may end a run: a name too long for a lookup, an inode that is neither a file nor a
directory, and a transfer to a block behind the end of the volume. -/
def Stop.Elsewhere (p : Stop) : Prop := p = .fnameLen ∨ p = .attr ∨ p = .blkno

/-- A transfer of at least one byte. -/
lemma transfer_sound (h : Sound v) (hsin : sin ∈ v.nodes) (hi : v.IsFile sin.ino)
    (hlt : offset < endpos) (hsafe : (v.dinos sin.ino).size < offset → ¬Overshoots v sin offset) :
    Ensures Stop.Elsewhere (transfer v n sin offset endpos) fun r => Sound r.1 := by
  obtain ⟨c, hc⟩ := h.separate
  have hb := hc.blocks sin.ino hi
  rw [transfer]
  have hloop := ioLoop_spec v.super.blocks (ioBlocks offset endpos) (consecutive_ioBlocks hlt) hb h.reserved 0
  refine (hloop.tolerate fun p hp => .inr (.inr hp)).bind ?_
  rintro ⟨fat, alen, ret⟩ ⟨l', m, hm, -, hre, hlen, hall, hnone⟩
  rw [zero_add] at hm
  subst hm
  refine .ite (fun _ => ?_) fun _ => h.setFat hc hi hre hlen
  refine h.setSize hc hsin hi hre ?_
  obtain rfl | hpos := eq_zero_or_pos alen
  · obtain ⟨-, hload⟩ := hnone rfl
    obtain ⟨e, hload⟩ := hload hlt
    have hover := hsafe (by omega)
    rw [overshoots_iff hb h.reserved hload, not_lt] at hover
    exact hover.trans hlen
  · exact hall hpos

/-- The operations after which the lists are long enough: a write does not begin beyond the blocks of its
file, and the length that a file is truncated to is not one whose number of blocks wraps around to 0. -/
def ChainSafe (v : Vol) : Op → Prop
  | .io n offset len true => ∀ sin, v.nodes[n]? = some sin → (v.dinos sin.ino).isDir = false →
      offset < maxFileSize → len ≠ 0 → ¬Overshoots v sin offset
  | .truncate n len => ∀ sin, v.nodes[n]? = some sin → (v.dinos sin.ino).isDir = false →
      blocksOf len = 0 → len % 2 ^ 32 = 0
  | _ => True

variable {len : ℕ}

lemma ioNolock_sound (h : Sound v) (hsin : sin ∈ v.nodes) (hi : v.IsFile sin.ino) {write : Bool}
    (hsafe : write = true → offset < maxFileSize → len ≠ 0 → ¬Overshoots v sin offset) :
    Ensures Stop.Elsewhere (ioNolock v n sin offset len write) fun r => Sound r.1 := by
  rw [ioNolock]
  refine .ite (fun _ => h) fun _ => .ite (fun _ => h) fun _ => .ite (fun _ => ?_) fun _ =>
    .ite (fun _ => h) fun _ => ?_
  · grind [transfer_sound]
  · grind [transfer_sound]

/-- The size that a truncate sets fits the number of blocks, unless that wraps around to 0. -/
lemma clusters_mod_le (hsmall : blocksOf len ≤ blkNentry) (hzero : blocksOf len = 0 → len % 2 ^ 32 = 0) :
    clusters (len % 2 ^ 32) ≤ blocksOf len := by
  rw [clusters_le_iff]
  rw [blocksOf, blkSize, blkNentry] at *
  omega

/-- The size of a file of the volume is that of its blocks. -/
lemma blocksOf_size (hc : Lists v c) (hi : v.IsFile i) : blocksOf (v.dinos i).size = clusters (v.dinos i).size := by
  have hlen := (hc.enough i hi).trans (hc.blocks i hi).length_le
  exact Nat.mod_eq_of_lt (hlen.trans_lt (by decide))

section

variable (h : Sound v)
include h

section

variable (hsin : sin ∈ v.nodes) (hi : v.IsFile sin.ino)
include hsin hi

lemma truncfile_sound (hsafe : blocksOf len = 0 → len % 2 ^ 32 = 0) :
    Ensures Stop.Elsewhere (truncfile v n sin len) fun r => Sound r.1 := by
  obtain ⟨c, hc⟩ := h.separate
  have hb := hc.blocks sin.ino hi
  have henough := hc.enough sin.ino hi
  rw [truncfile, blocksOf_size hc hi]
  refine .ite (fun _ => h) fun _ => .ite (fun _ => ?_) fun _ => ?_
  · obtain ⟨l', hre, hlen, hall⟩ := growLoop_spec (blocksOf len - clusters (v.dinos sin.ino).size) hb h.reserved
      henough
    cases hloop : growLoop (v.dinos sin.ino).firstCluster (blocksOf len - clusters (v.dinos sin.ino).size)
        (clusters (v.dinos sin.ino).size) v.fat with
    | mk fat ret =>
      rw [hloop] at hre hall
      cases ret with
      | some e => exact h.setFat hc hi hre hlen
      | none =>
        have hle : blocksOf len ≤ l'.length := by
          have := hall rfl
          omega
        exact h.setSize hc hsin hi hre ((clusters_mod_le (hle.trans hre.blocks.length_le) hsafe).trans hle)
  · obtain ⟨fat, l', hrun, hre, hlen⟩ := shrinkLoop_spec (clusters (v.dinos sin.ino).size - blocksOf len) hb
    rw [hrun]
    have hle : blocksOf len ≤ l'.length := by omega
    exact h.setSize hc hsin hi hre ((clusters_mod_le (hle.trans hre.blocks.length_le) hsafe).trans hle)

lemma tryseek_sound (pos : ℕ) : Ensures Stop.Elsewhere (tryseek v n sin pos) fun r => Sound r.1 := by
  rw [tryseek]
  refine .ite (fun _ => h) fun hmax => .ite (fun _ => truncfile_sound h hsin hi fun hzero => ?_) fun _ => h
  rw [maxFileSize] at hmax
  rw [blocksOf, blkSize] at hzero
  omega

end

/-- An inode is loaded. -/
lemma loadInode_sound (hi : i < v.super.ndirentry) : Ensures Stop.Elsewhere (loadInode v i) Sound :=
  .ite (fun _ => ⟨h.separate.congr rfl rfl rfl, h.reserved,
    forall_mem_append.mpr ⟨h.nodes, forall_mem_singleton.mpr hi⟩⟩) fun _ => .inr (.inl rfl)

lemma lookup_sound (name : List UInt8) : Ensures Stop.Elsewhere (lookup v name) fun r => Sound r.1 := by
  rw [lookup]
  refine .ite (fun _ => .inl rfl) fun _ => ?_
  cases hsearch : direntSearch v name with
  | none => exact h
  | some ino => exact (loadInode_sound h (direntSearch_lt hsearch)).bind fun _ hv' => hv'

/-- A new file has one block, which was free. -/
lemma created_sound (name : List UInt8) {bno : ℕ} (hlt : bno < blkNentry)
    (hfree : v.fat bno = fatFree) : Sound (created v name bno) := by
  obtain ⟨c, hc⟩ := h.separate
  have hnew : (created v name bno).dinos v.super.ndirentry = ⟨name, 0x21, bno, 0⟩ := update_self ..
  have hold : ∀ j, j ≠ v.super.ndirentry → (created v name bno).dinos j = v.dinos j := fun j hj =>
    update_of_ne hj ..
  have hfile : ∀ j, (created v name bno).IsFile j → j ≠ v.super.ndirentry → v.IsFile j := by
    rintro j ⟨hj, hdir⟩ hne
    rw [hold j hne] at hdir
    have hj' : j < v.super.ndirentry + 1 := hj
    exact ⟨by omega, hdir⟩
  have hnot : ∀ j, v.IsFile j → bno ∉ c j := fun j hj hmem => (hc.blocks j hj).used bno hmem hfree
  refine ⟨⟨update c v.super.ndirentry [bno], fun j hj => ?_, fun j k hj hk hjk => ?_, fun j hj => ?_⟩, ?_,
    fun sin hsin => Nat.lt_succ_of_lt (h.nodes sin hsin)⟩
  · by_cases hje : j = v.super.ndirentry
    · rw [hje, update_self, hnew]
      exact blocks_singleton hlt
    · rw [update_of_ne hje, hold j hje]
      exact (hc.blocks j (hfile j hj hje)).take hfree
  · by_cases hje : j = v.super.ndirentry
    · have hke : k ≠ v.super.ndirentry := fun hke => hjk (hje.trans hke.symm)
      rw [hje, update_self, update_of_ne hke]
      exact singleton_disjoint.mpr (hnot k (hfile k hk hke))
    · rw [update_of_ne hje]
      by_cases hke : k = v.super.ndirentry
      · rw [hke, update_self]
        exact disjoint_singleton.mpr (hnot j (hfile j hj hje))
      · rw [update_of_ne hke]
        exact hc.disjoint j k (hfile j hj hje) (hfile k hk hke) hjk
  · by_cases hje : j = v.super.ndirentry
    · rw [hje, update_self, hnew]
      exact (by decide : clusters 0 ≤ 1)
    · rw [update_of_ne hje, hold j hje]
      exact hc.enough j (hfile j hj hje)
  · exact reserved_take h.reserved hfree

lemma create_sound (name : List UInt8) : Ensures Stop.Elsewhere (create v name) fun r => Sound r.1 := by
  rw [create]
  refine .ite (fun _ => h) fun _ => .ite (fun _ => h) fun _ => .ite (fun _ => h) fun _ => ?_
  cases hfind : bmapFindfree v.fat with
  | none => exact h
  | some bno =>
    obtain ⟨hlt, hfree⟩ := bmapFindfree_some hfind
    exact (loadInode_sound (created_sound h name hlt hfree) (Nat.lt_succ_self v.super.ndirentry)).bind fun _ hv' => hv'

lemma fsync_sound (hsin : sin ∈ v.nodes) : Sound (fsync v n sin) := by
  rw [fsync]
  split_ifs
  · exact ⟨h.separate.congr rfl rfl rfl, h.reserved, nodes_set h.nodes hsin⟩
  · exact h

lemma onFile_sound {f : Sin → Except Stop (Vol × Option Err)}
    (hf : ∀ sin, v.nodes[n]? = some sin → sin ∈ v.nodes → v.IsFile sin.ino →
      Ensures Stop.Elsewhere (f sin) fun r => Sound r.1) :
    Ensures Stop.Elsewhere (onFile v n f) fun r => Sound r.1 := by
  rw [onFile]
  cases hn : v.nodes[n]? with
  | none => exact h
  | some sin =>
    have hsin := mem_of_getElem? hn
    exact .ite (fun _ => h) fun hdir => hf sin hn hsin ⟨h.nodes sin hsin, by simpa using hdir⟩

/-- The lists stay apart and long enough. -/
lemma step_sound (hop : op ≠ .remount) (hsafe : ChainSafe v op) : Ensures Stop.Elsewhere (v.step op) Sound := by
  have hexec : Ensures Stop.Elsewhere (v.exec op) fun r => Sound r.1 := by
    cases op with
    | lookup name => exact lookup_sound h name
    | create name => exact create_sound h name
    | io m offset len write =>
      refine onFile_sound h fun sin hn hsin hi => ioNolock_sound h hsin hi fun hwrite hmax hlen => ?_
      subst hwrite
      exact hsafe sin hn hi.2 hmax hlen
    | tryseek m pos => exact onFile_sound h fun sin _ hsin hi => tryseek_sound h hsin hi pos
    | truncate m len => exact onFile_sound h fun sin hn hsin hi => truncfile_sound h hsin hi (hsafe sin hn hi.2)
    | fsync m =>
      rw [Vol.exec]
      cases hn : v.nodes[m]? with
      | none => exact h
      | some sin => exact fsync_sound h (mem_of_getElem? hn)
    | remount => exact absurd rfl hop
  exact hexec.bind fun r hr => hr

end

/-! ### Where the lists become too short -/

/-- A file whose size is beyond its blocks. -/
lemma not_separate (hi : v.IsFile i) (hb : Blocks v.fat (v.dinos i).firstCluster l)
    (hsize : l.length < clusters (v.dinos i).size) : ¬Separate v := by
  rintro ⟨c, hc⟩
  have hlist := (hc.blocks i hi).chain.unique hb.chain
  have henough := hc.enough i hi
  rw [hlist] at henough
  omega

/-- The entry and the size of a file after `setSize`. -/
lemma setSize_isFile (hi : v.IsFile sin.ino) (fat : Fat) (n size : ℕ) :
    (setSize { v with fat := fat } n sin size).IsFile sin.ino :=
  ⟨hi.1, by simpa [setSize, Din.isDir] using hi.2⟩

/-- A write that begins beyond the blocks of the file returns an error, and sets the size all the same. -/
lemma ioNolock_overshoots (h : Sound v) (hi : v.IsFile sin.ino) (hmax : offset < maxFileSize)
    (hlen : len ≠ 0) (hover : Overshoots v sin offset) :
    ∃ r, ioNolock v n sin offset len true = .ok r ∧ ¬Separate r.1 := by
  obtain ⟨c, hc⟩ := h.separate
  have hb := hc.blocks sin.ino hi
  have henough := hc.enough sin.ino hi
  cases hload : bmapLoad v.fat (v.dinos sin.ino).firstCluster (offset / blkSize) with
  | ok r =>
    rw [Overshoots, hload] at hover
    exact hover.elim
  | error e =>
    have hshort := (overshoots_iff hb h.reserved hload).mp hover
    have hgrow : (v.dinos sin.ino).size < offset + 0 := by
      rw [← not_le, clusters_le_iff, not_le] at hshort
      rw [clusters_le_iff] at henough
      omega
    have hlt : offset < min (offset + len) maxFileSize := by omega
    refine ⟨(setSize { v with fat := v.fat } n sin (offset + 0), some e), ?_, ?_⟩
    · rw [ioNolock, if_neg (by omega), if_neg hlen, if_pos rfl, transfer,
        ioLoop_of_error (consecutive_ioBlocks hlt) hlt hload]
      exact if_pos hgrow
    · refine not_separate (setSize_isFile hi _ n _) (l := c sin.ino) ?_ ?_
      · simpa [setSize] using hb
      · simpa [setSize] using hshort

/-- A truncate to a length whose number of blocks wraps around to 0. -/
lemma truncfile_wraps (h : Sound v) (hi : v.IsFile sin.ino) (hzero : blocksOf len = 0)
    (hne : len % 2 ^ 32 ≠ 0) : ∃ r, truncfile v n sin len = .ok r ∧ ¬Separate r.1 := by
  obtain ⟨c, hc⟩ := h.separate
  have hb := hc.blocks sin.ino hi
  have hsize := (clusters_le_iff.mp ((hc.enough sin.ino hi).trans hb.length_le))
  obtain ⟨fat, l', hrun, hre, -⟩ := shrinkLoop_spec (blocksOf (v.dinos sin.ino).size - blocksOf len) hb
  have hlen : (v.dinos sin.ino).size ≠ len := by grind [blocksOf, blkSize, blkNentry]
  refine ⟨(setSize { v with fat := fat } n sin (len % 2 ^ 32), none), ?_, ?_⟩
  · rw [truncfile, if_neg hlen, if_neg (by omega), hrun]
    rfl
  · refine not_separate (setSize_isFile hi _ n _) (by simpa [setSize] using hre.blocks) ?_
    have hle := hre.blocks.length_le
    simp only [setSize, update_self]
    grind [clusters_le_iff, blocksOf, blkSize, blkNentry]

/-- An operation that is not safe leaves a file with a size beyond its blocks. -/
lemma step_short (h : Sound v) (hsafe : ¬ChainSafe v op) :
    Ensures (fun p => ¬p.Elsewhere) (v.step op) fun v' => ¬Separate v' := by
  have hfile : ∀ {m : ℕ} {f : Sin → Except Stop (Vol × Option Err)} {sin : Sin}, v.nodes[m]? = some sin →
      (v.dinos sin.ino).isDir = false → onFile v m f = f sin := by
    intro m f sin hn hdir
    rw [onFile, hn]
    simp [hdir]
  cases op
  case io m offset len write =>
    cases write
    · exact absurd trivial hsafe
    rw [ChainSafe] at hsafe
    push Not at hsafe
    obtain ⟨sin, hn, hdir, hmax, hlen, hover⟩ := hsafe
    have hi : v.IsFile sin.ino := ⟨h.nodes sin (mem_of_getElem? hn), hdir⟩
    obtain ⟨r, hrun, hbad⟩ := ioNolock_overshoots h hi hmax hlen hover
    rw [Vol.step, Vol.exec, hfile hn hdir, hrun]
    exact hbad
  case truncate m len =>
    rw [ChainSafe] at hsafe
    push Not at hsafe
    obtain ⟨sin, hn, hdir, hzero, hne⟩ := hsafe
    have hi : v.IsFile sin.ino := ⟨h.nodes sin (mem_of_getElem? hn), hdir⟩
    obtain ⟨r, hrun, hbad⟩ := truncfile_wraps h hi hzero hne
    rw [Vol.step, Vol.exec, hfile hn hdir, hrun]
    exact hbad
  all_goals exact absurd trivial hsafe

/-! ### Runs -/

/-- On a mounted volume, the lists of blocks of distinct files stay apart, come to an end and are long enough
for the sizes throughout a run of reads, writes, seeks, truncates, lookups and new files, and every walk along
a list ends, exactly when no write begins beyond the blocks of its file and no length that is truncated to
has a number of blocks that wraps around to 0. -/
theorem separate_iff (v : Vol) (h : Sound v) (ops : List Op) (hops : Op.remount ∉ ops) :
    CorrectUpTo Vol.step Separate Stop.Elsewhere v ops ↔ AllSafe Vol.step ChainSafe v ops := by
  have hlegal : AllSafe Vol.step (fun _ op => op ≠ Op.remount) v ops :=
    allSafe_of_forall_mem (by rintro op hop - rfl; exact hops hop) v
  exact correctUpTo_iff_allSafe_of_legal Sound (fun _ h => h.separate) (fun _ _ h hop => step_sound h hop)
    (fun _ _ h _ => step_short h) h ops hlegal

/-- A volume with one file of five bytes. -/
def oneFile : Disk where
  blocks := 2048
  super := ⟨sfatfsMagic, 2048, 2045, 1⟩
  dinos := fun _ => ⟨[97], 0x21, 2, 5⟩
  fat := fun i => if i < 2 then fatReserve else if i = 2 then fatEof else fatFree

lemma sound_oneFile : Sound (mounted oneFile) where
  separate := by
    have hzero : ∀ i, (mounted oneFile).IsFile i → i = 0 := fun i hi => Nat.lt_one_iff.mp hi.1
    refine ⟨fun _ => [2], fun i _ => ?_, fun i j hi hj hij => ?_, fun i _ => ?_⟩
    · exact ⟨⟨rfl, by decide, rfl⟩, by simp, by simp, by decide, by decide⟩
    · exact absurd ((hzero i hi).trans (hzero j hj).symm) hij
    · exact (by decide : clusters 5 ≤ 1)
  reserved := by decide
  nodes := fun _ hsin => absurd hsin not_mem_nil

/-- A byte in the next block, and then nothing. -/
theorem separate_iff_oneFile : Sound (mounted oneFile) ∧
    (CorrectUpTo Vol.step Separate Stop.Elsewhere (mounted oneFile)
        [.lookup [97], .io 0 4096 1 true, .truncate 0 0] ↔
      AllSafe Vol.step ChainSafe (mounted oneFile) [.lookup [97], .io 0 4096 1 true, .truncate 0 0]) :=
  ⟨sound_oneFile, separate_iff _ sound_oneFile _ (by decide)⟩

/-- A process seeks to byte 12288 of the file, another one opens it and truncates it, and the first one writes
a byte: the write returns `-E_INVAL`, and the size of the file is 12288 bytes, with one block. -/
theorem size_beyond_blocks :
    ∃ v₁ v₂, [Op.lookup [97], .tryseek 0 12288, .lookup [97], .truncate 1 0].foldlM Vol.step (mounted oneFile) =
        .ok v₁ ∧
      v₁.exec (.io 0 12288 1 true) = .ok (v₂, some .inval) ∧ (v₂.dinos 0).size = 12288 ∧
      Blocks v₂.fat (v₂.dinos 0).firstCluster [2] ∧ ¬Separate v₂ := by
  generalize hx : List.foldlM Vol.step _ _ = x
  have heval : x.toOption.bind (fun v₁ => (v₁.exec (.io 0 12288 1 true)).toOption.map fun r =>
      (r.2, r.1.dinos 0, r.1.super.ndirentry, r.1.fat 2)) =
      some (some .inval, ⟨[97], 0x21, 2, 12288⟩, 1, fatEof) := by
    rw [← hx]
    decide +kernel
  obtain ⟨v₁, hrun, hmap⟩ := exists_ok_of_bind heval
  obtain ⟨⟨v₂, e⟩, hwrite, hEq⟩ := exists_ok_of_map hmap
  simp only [Prod.mk.injEq] at hEq
  obtain ⟨rfl, hdin, hn, hfat⟩ := hEq
  have hb : Blocks v₂.fat (v₂.dinos 0).firstCluster [2] := by
    rw [hdin]
    refine ⟨⟨rfl, by decide, hfat⟩, by simp, by simp, by decide, fun i hi => ?_⟩
    rw [mem_singleton.mp hi, hfat]
    decide
  refine ⟨v₁, v₂, hrun, hwrite, by rw [hdin], hb, not_separate ⟨by omega, by rw [hdin]; decide⟩ hb ?_⟩
  rw [hdin]
  decide

end UcoreKernel.Sfatfs
