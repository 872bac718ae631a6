import UcoreKernel.Lib.Counting
import UcoreKernel.Lib.Except
import UcoreKernel.Fs.File

/-!
The counts of the file table.

* `file_table_counts`: no assertion fails in any run, and `TableOk` holds in every state.
-/

namespace UcoreKernel.FileTable

open Function List File Pc

/-! ### What is counted -/

namespace Pc

/-- The operation is between `filemap_acquire` and `filemap_release` on the slot. -/
@[simp]
def busyOn (fd : ℕ) : Pc → Bool
  | busy f _ => f = fd
  | _ => false

/-- The operation has reserved the slot. -/
@[simp]
def owns (fd : ℕ) : Pc → Bool
  | opening f _ _ _ => f = fd
  | stating f _ _ _ => f = fd
  | dropping f _ _ => f = fd
  | piping f₀ f₁ => f₀ = fd || f₁ = fd
  | _ => false

/-- The operation is the last one on the slot and frees it. -/
@[simp]
def closes (fd : ℕ) : Pc → Bool
  | closing f _ _ => f = fd
  | _ => false

/-- The operation is in flight on the slot. -/
@[simp]
def On (pc : Pc) (fd : ℕ) : Prop := pc.busyOn fd ∨ pc.owns fd ∨ pc.closes fd

/-- The operation has the inode from `vfs_open` and has not put it into its slot yet. -/
@[simp]
def takes (n : Inode) : Pc → Bool
  | stating _ _ _ m => m = n
  | _ => false

/-- The operation has given the open count of the inode back, and not yet the reference. -/
@[simp]
def keepsRef (n : Inode) : Pc → Bool
  | closing _ m false => m = n
  | dropping _ m false => m = n
  | _ => false

end Pc

/-- The slot holds the inode: it is open, or it was closed under operations that are still in
flight. -/
def File.holds (file : File) (n : Inode) : Bool :=
  file.node = some n && (file.status = .opened || (file.status = .closed && 0 < file.openCount))

namespace Table

/-- The operations in flight on an open slot. -/
def inFlight (t : Table) (fd : ℕ) : ℕ := t.running.countP (Pc.busyOn fd)

/-- The slots that hold the inode. -/
def holders (N : ℕ) (t : Table) (n : Inode) : ℕ :=
  ∑ fd ∈ Finset.range N, if (t.filemap fd).holds n then 1 else 0

/-- The opens that have the inode and are about to put it into their slot. -/
def taking (t : Table) (n : Inode) : ℕ := t.running.countP (Pc.takes n)

/-- The closes of the inode between `vop_open_dec` and `vop_ref_dec`. -/
def keeping (t : Table) (n : Inode) : ℕ := t.running.countP (Pc.keepsRef n)

end Table

open Table Pc

/-- What holds of the table in every state. -/
structure TableOk (N : ℕ) (t : Table) : Prop where
  openCount : ∀ fd < N, (t.filemap fd).openCount =
    (if (t.filemap fd).status = .opened then 1 else 0) + t.inFlight fd
  inodeOpen : ∀ n, t.inodeOpen n = t.holders N n + t.taking n
  inodeRef : ∀ n, t.inodeRef n = t.holders N n + t.taking n + t.keeping n
  reuse : ∀ request fd, findSlot N t request = .ok fd → ∀ pc ∈ t.running, ¬pc.On fd
  closedOnce : ∀ fd < N, ∀ n, t.held fd n =
    t.vfsClosed fd n + if (t.filemap fd).holds n then 1 else 0

/-! ### The invariant -/

/-- The status of a slot fits the operations on it: a slot that is reserved has one owner, and a closed
slot without operations is being freed by one. -/
structure SlotOk (file : File) (busy owners closers : ℕ) : Prop where
  count : file.openCount = (if file.status = .opened then 1 else 0) + busy
  owned : owners = if file.status = .init then 1 else 0
  closing : closers = if file.status = .closed ∧ file.openCount = 0 then 1 else 0
  live : file.status = .none ∨ file.status = .init → file.openCount = 0
  node : file.status = .opened ∨ file.status = .closed → ∃ n, file.node = some n

/-- What holds of the table while the operations in `L` are under way: those that are suspended and,
during a step, the one that runs. -/
structure Inv (N : ℕ) (t : Table) (L : List Pc) : Prop where
  slots : ∀ fd < N, SlotOk (t.filemap fd) (L.countP (Pc.busyOn fd)) (L.countP (Pc.owns fd))
    (L.countP (Pc.closes fd))
  fds : ∀ fd < N, (t.filemap fd).fd = fd
  bound : ∀ pc ∈ L, ∀ fd, pc.On fd → fd < N
  closingNode : ∀ fd n b, .closing fd n b ∈ L → (t.filemap fd).node = some n
  pipingNe : ∀ a b, .piping a b ∈ L → a ≠ b
  inodeOpen : ∀ n, t.inodeOpen n = t.holders N n + L.countP (Pc.takes n)
  inodeRef : ∀ n, t.inodeRef n =
    t.holders N n + L.countP (Pc.takes n) + L.countP (Pc.keepsRef n)
  closedOnce : ∀ fd < N, ∀ n, t.held fd n =
    t.vfsClosed fd n + if (t.filemap fd).holds n then 1 else 0

variable {N : ℕ} {t t' : Table} {fd : ℕ} {file : File} {pc : Pc} {n node : Inode}
  {L L' : List Pc}

lemma inv_filemapInit : Inv N filemapInit [] where
  slots := fun _ _ => ⟨rfl, rfl, rfl, fun _ => rfl, by simp [filemapInit]⟩
  fds := fun _ _ => rfl
  bound := by simp
  closingNode := by simp
  pipingNe := by simp
  inodeOpen := by simp [filemapInit, Table.holders, holds]
  inodeRef := by simp [filemapInit, Table.holders, holds]
  closedOnce := by simp [filemapInit, holds]

/-- The order of the operations does not matter. -/
lemma Inv.perm (h : Inv N t L) (hp : L.Perm L') : Inv N t L' where
  slots := fun fd hfd => by
    rw [← hp.countP_eq, ← hp.countP_eq, ← hp.countP_eq]
    exact h.slots fd hfd
  fds := h.fds
  bound := fun pc hpc => h.bound pc (hp.mem_iff.mpr hpc)
  closingNode := fun fd n b hpc => h.closingNode fd n b (hp.mem_iff.mpr hpc)
  pipingNe := fun a b hpc => h.pipingNe a b (hp.mem_iff.mpr hpc)
  inodeOpen := fun n => by rw [← hp.countP_eq, h.inodeOpen]
  inodeRef := fun n => by rw [← hp.countP_eq, ← hp.countP_eq, h.inodeRef]
  closedOnce := h.closedOnce

/-- A suspended operation runs again. -/
lemma Inv.pop (h : Inv N t t.running) (hpc : pc ∈ t.running) : Inv N (t.pop pc) (pc :: (t.pop pc).running) := by
  have hp := h.perm (perm_cons_erase hpc)
  exact { hp with }

/-- The operation that runs is suspended. -/
lemma Inv.push (h : Inv N t (pc :: t.running)) : Inv N (t.push pc) (t.push pc).running :=
  { h with }

/-- No operation is on a slot that is free. -/
lemma Inv.not_on_of_none (h : Inv N t L) (hfd : fd < N) (hnone : (t.filemap fd).status = .none)
    (hpc : pc ∈ L) : ¬pc.On fd := by
  have hs := h.slots fd hfd
  have hcount := hs.count
  have howned := hs.owned
  have hclosing := hs.closing
  have hlive := hs.live (.inl hnone)
  simp only [hnone, reduceCtorEq, if_false, false_and] at hcount howned hclosing
  rintro (hb | ho | hc)
  · have := countP_pos_iff.mpr ⟨pc, hpc, hb⟩
    omega
  · have := countP_pos_iff.mpr ⟨pc, hpc, ho⟩
    omega
  · grind

/-- The slot that is handed out is a free one. -/
lemma findSlot_spec {request : Option ℤ} (hfind : findSlot N t request = .ok fd) :
    fd < N ∧ (t.filemap fd).status = .none := by
  cases request with
  | none | some => grind [findSlot]

/-- The invariant gives what is claimed of the table. -/
lemma Inv.tableOk (h : Inv N t t.running) : TableOk N t where
  openCount := fun fd hfd => (h.slots fd hfd).count
  inodeOpen := h.inodeOpen
  inodeRef := h.inodeRef
  reuse := fun _ _ hfind _ hpc =>
    h.not_on_of_none (findSlot_spec hfind).1 (findSlot_spec hfind).2 hpc
  closedOnce := h.closedOnce

/-! ### Changes of one slot -/

/-- The count of a slot and an inode as one more or not. -/
lemma bump_apply (count : ℕ → Inode → ℕ) (fd : ℕ) (node : Inode) (f : ℕ) (n : Inode) :
    bump count fd node f n = count f n + if f = fd ∧ n = node then 1 else 0 := by
  obtain rfl | hf := eq_or_ne f fd
  · by_cases hn : n = node
    · subst hn
      simp [bump]
    · simp [bump, hn]
  · simp [bump, hf]

/-- One operation `out` on a slot ends and one operation `new` begins, and the slot is written. The
other slots do not notice; of this one, its status has to fit and the counts have to follow. -/
lemma Inv.change (out new : List Pc) (file : File) (h : Inv N t (out ++ L)) (hfd : fd < N)
    (hmap : t'.filemap = update t.filemap fd file)
    (hslot : ∀ b o c, SlotOk (t.filemap fd) (out.countP (busyOn fd) + b)
        (out.countP (owns fd) + o) (out.countP (closes fd) + c) →
      SlotOk file (new.countP (busyOn fd) + b) (new.countP (owns fd) + o)
        (new.countP (closes fd) + c))
    (hnode : file.node = (t.filemap fd).node ∨ (t.filemap fd).status ≠ .closed)
    (hopen : ∀ n, t'.inodeOpen n + (if (t.filemap fd).holds n then 1 else 0) +
      out.countP (takes n) = t.inodeOpen n + (if file.holds n then 1 else 0) + new.countP (takes n))
    (href : ∀ n, t'.inodeRef n + (if (t.filemap fd).holds n then 1 else 0) +
      out.countP (takes n) + out.countP (keepsRef n) =
      t.inodeRef n + (if file.holds n then 1 else 0) + new.countP (takes n) + new.countP (keepsRef n))
    (honce : ∀ n, t'.held fd n + t.vfsClosed fd n + (if (t.filemap fd).holds n then 1 else 0) =
      t.held fd n + t'.vfsClosed fd n + if file.holds n then 1 else 0)
    (hnum : file.fd = (t.filemap fd).fd)
    (hops : (∀ pc ∈ out ++ new, ∀ f, pc.On f → f = fd) ∧
      (∀ n b, .closing fd n b ∈ new → file.node = some n) ∧ ∀ a b, .piping a b ∉ new)
    (hframe : ∀ f, f ≠ fd → t'.held f = t.held f ∧ t'.vfsClosed f = t.vfsClosed f) :
    Inv N t' (new ++ L) := by
  obtain ⟨hon, hclosing, hpiping⟩ := hops
  -- Operations on other slots are in `L`.
  have hzero : ∀ f, f ≠ fd → ∀ pc ∈ out ++ new, ¬pc.On f := fun f hf pc hpc hpcf =>
    hf (hon pc hpc f hpcf)
  have hcount : ∀ f, f ≠ fd → ∀ p, (∀ pc, p pc → pc.On f) →
      out.countP p = 0 ∧ new.countP p = 0 := fun f hf p hp =>
    ⟨countP_eq_zero.mpr fun pc hpc hppc =>
        hzero f hf pc (mem_append_left _ hpc) (hp pc hppc),
      countP_eq_zero.mpr fun pc hpc hppc =>
        hzero f hf pc (mem_append_right _ hpc) (hp pc hppc)⟩
  have hholders : ∀ n, t'.holders N n + (if (t.filemap fd).holds n then 1 else 0) =
      t.holders N n + if file.holds n then 1 else 0 := fun n => by
    rw [Table.holders, hmap]
    exact Counting.sum_update_add (Finset.mem_range.mpr hfd) (fun f => if f.holds n then 1 else 0) t.filemap file
  refine ⟨fun f hf => ?_, fun f hf => ?_, fun pc hpc f hpcf => ?_, fun f n b hpc => ?_,
    fun a b hpc => ?_, fun n => ?_, fun n => ?_, fun f hf n => ?_⟩
  · have hs := h.slots f hf
    rw [hmap]
    by_cases hEq : f = fd
    · grind
    · rw [update_of_ne hEq]
      obtain ⟨hb1, hb2⟩ := hcount f hEq (busyOn f) fun _ => .inl
      obtain ⟨ho1, ho2⟩ := hcount f hEq (owns f) fun _ h => .inr (.inl h)
      obtain ⟨hc1, hc2⟩ := hcount f hEq (closes f) fun _ h => .inr (.inr h)
      grind
  · rw [hmap]
    obtain rfl | hEq := eq_or_ne f fd
    · rw [update_self, hnum]
      exact h.fds f hf
    · rw [update_of_ne hEq]
      exact h.fds f hf
  · obtain hpc | hpc := mem_append.mp hpc
    · grind
    · exact h.bound pc (mem_append_right _ hpc) f hpcf
  · rw [hmap]
    obtain hpc | hpc := mem_append.mp hpc
    · obtain rfl := hon _ (mem_append_right _ hpc) f (.inr (.inr (by simp [closes])))
      rw [update_self]
      exact hclosing n b hpc
    · have hold := h.closingNode f n b (mem_append_right _ hpc)
      obtain rfl | hEq := eq_or_ne f fd
      · rw [update_self]
        obtain hnode | hstatus := hnode
        · rw [hnode, hold]
        · -- A slot that is not closed is not being freed.
          have hpos : 0 < (out ++ L).countP (closes f) :=
            countP_pos_iff.mpr ⟨_, mem_append_right _ hpc, by simp [closes]⟩
          rw [(h.slots f hfd).closing, if_neg fun hc => hstatus hc.1] at hpos
          omega
      · rw [update_of_ne hEq]
        exact hold
  · obtain hpc | hpc := mem_append.mp hpc
    · exact absurd hpc (hpiping a b)
    · exact h.pipingNe a b (mem_append_right _ hpc)
  · have hold := h.inodeOpen n
    grind
  · have hold := h.inodeRef n
    grind
  · have hold := h.closedOnce f hf n
    rw [hmap]
    by_cases hEq : f = fd
    · grind
    · grind

/-! ### Steps of a slot -/

/-- A free slot is reserved. -/
lemma alloc_inv (h : Inv N t L) (hfd : fd < N) (hst : (t.filemap fd).status = .none)
    (r w a : Bool) : ∃ t', filemapAlloc t fd = .ok t' ∧ t'.running = t.running ∧
      t'.filemap = update t.filemap fd { t.filemap fd with status := .init, node := none } ∧
      Inv N t' (.opening fd r w a :: L) := by
  have hzero := (h.slots fd hfd).live (.inl hst)
  rw [filemapAlloc, if_neg (not_not.mpr hzero)]
  refine ⟨_, rfl, rfl, rfl, Inv.change [] [.opening fd r w a] _ h hfd rfl ?_ (.inr (by simp [hst])) ?_ ?_ ?_
    rfl (by simp) fun _ _ => ⟨rfl, rfl⟩⟩
  · rintro b o c ⟨hcount, howned, hclosing, -, -⟩
    simp only [hst, hzero, reduceCtorEq, if_false, false_and] at hcount howned hclosing
    refine ⟨?_, ?_, ?_, fun _ => hzero, by simp⟩
    · simpa [hzero] using hcount
    · simpa using howned
    · simpa using hclosing
  all_goals simp [holds, hst, setFile]

/-- A slot with an owner is reserved. -/
lemma Inv.status_init (h : Inv N t (pc :: L)) (hfd : fd < N) (hown : pc.owns fd) :
    (t.filemap fd).status = .init ∧ (t.filemap fd).openCount = 0 := by
  have hs := h.slots fd hfd
  have hinit : (t.filemap fd).status = .init := by
    by_contra hne
    have howned := hs.owned
    grind
  exact ⟨hinit, hs.live (.inr hinit)⟩

variable {r w a : Bool}

/-- A reserved slot is given back. -/
lemma freeInit_inv (h : Inv N t (pc :: L)) (hpc : pc = .opening fd r w a ∨ pc = .dropping fd n true) :
    ∃ t', filemapFree t fd = .ok t' ∧ t'.running = t.running ∧ Inv N t' L := by
  have hown : pc.owns fd := by obtain rfl | rfl := hpc <;> simp
  have hfd : fd < N := h.bound pc (.head _) fd (.inr (.inl hown))
  obtain ⟨hst, hzero⟩ := h.status_init hfd hown
  rw [filemapFree]
  simp only [hst, hzero, reduceCtorEq, or_false, not_true_eq_false, if_false, ne_eq]
  refine ⟨_, rfl, rfl, Inv.change [pc] [] _ h hfd rfl ?_ (.inl rfl) ?_ ?_ ?_ rfl ?_ fun _ _ => ⟨rfl, rfl⟩⟩
  · rintro b o c ⟨hcount, howned, hclosing, -, -⟩
    obtain rfl | rfl := hpc
    all_goals
      simp [hst, hzero] at hcount howned hclosing
      exact ⟨by simp [hcount], by simp [howned], by simp [hclosing], fun _ => rfl, by simp⟩
  · obtain rfl | rfl := hpc <;> simp [holds, hst, setFile]
  · obtain rfl | rfl := hpc <;> simp [holds, hst, setFile]
  · simp [holds, hst, setFile]
  · obtain rfl | rfl := hpc <;> simp

/-- `vfs_open` hands over an inode. -/
lemma inodeInc_inv (h : Inv N t (.opening fd r w a :: L)) (r' w' : Bool)
    (node : Inode) : Inv N (t.inodeInc node) (.stating fd r' w' node :: L) := by
  have hfd : fd < N := h.bound _ (.head _) fd (by simp)
  refine Inv.change [.opening fd r w a] [.stating fd r' w' node] _ h hfd
    (update_eq_self fd t.filemap).symm ?_ (.inl rfl) (fun n => ?_) (fun n => ?_) (fun n => rfl)
    rfl (by simp) fun _ _ => ⟨rfl, rfl⟩
  · rintro b o c ⟨hcount, howned, hclosing, hlive, hnode⟩
    exact ⟨by simpa using hcount, by simpa using howned, by simpa using hclosing, hlive, hnode⟩
  all_goals
    obtain rfl | hn := eq_or_ne n node
    · simp [inodeInc]
      omega
    · simp [inodeInc, hn, Ne.symm hn]

/-- The inode is put into its slot, and the slot is open. -/
lemma fileOpened_inv (h : Inv N t (.stating fd r w node :: L)) (r' w' : Bool) (pos : ℤ) :
    ∃ t', fileOpened t fd r' w' pos node = .ok t' ∧ t'.running = t.running ∧ Inv N t' L := by
  have hfd : fd < N := h.bound _ (.head _) fd (by simp)
  obtain ⟨hst, hzero⟩ := h.status_init hfd (by simp)
  rw [fileOpened, filemapOpen]
  simp only [setFile, update_self, hst, ne_eq, not_true_eq_false, if_false]
  refine ⟨_, rfl, rfl, Inv.change [.stating fd r w node] []
    ⟨.opened, r', w', (t.filemap fd).fd, pos, some node, (t.filemap fd).openCount + 1⟩ h hfd
    (by rw [update_idem]) ?_ (.inr (by simp [hst])) (fun n => ?_) (fun n => ?_) (fun n => ?_) rfl (by simp)
    fun f hf => ⟨?_, rfl⟩⟩
  · rintro b o c ⟨hcount, howned, hclosing, -, -⟩
    simp [hst, hzero] at hcount howned hclosing
    exact ⟨by simp [hzero, ← hcount], by simp [howned], by simp [hclosing], by simp, by simp⟩
  · by_cases hn : n = node
    · simp [holds, hst, hn]
    · simp [holds, hst, Ne.symm hn]
  · by_cases hn : n = node
    · simp [holds, hst, hn]
    · simp [holds, hst, Ne.symm hn]
  · simp only [bump_apply]
    by_cases hn : n = node
    · simp [holds, hst, hn]
      omega
    · simp [holds, hst, hn, Ne.symm hn]
  · funext n
    simp [bump_apply, hf]

/-- A slot that holds an inode accounts for one of its open counts. -/
lemma Inv.inodeOpen_pos (h : Inv N t L) (hfd : fd < N) (hholds : (t.filemap fd).holds n) :
    0 < t.inodeOpen n := by
  have hle : 1 ≤ t.holders N n := by
    have hone : (if (t.filemap fd).holds n then 1 else 0) ≤ t.holders N n :=
      Finset.single_le_sum (f := fun f => if (t.filemap f).holds n then 1 else 0)
        (fun _ _ => Nat.zero_le _) (Finset.mem_range.mpr hfd)
    simpa [hholds] using hone
  have hopen := h.inodeOpen n
  omega

/-- The open count is given back after `vop_fstat` failed. -/
lemma statFailed_inv (h : Inv N t (.stating fd r w node :: L)) :
    ∃ t', inodeOpenDec t node = .ok t' ∧ t'.running = t.running ∧ Inv N t' (.dropping fd node false :: L) := by
  have hfd : fd < N := h.bound _ (.head _) fd (by simp)
  have hpos : t.inodeOpen node ≠ 0 := by
    have hopen := h.inodeOpen node
    rw [countP_cons_of_pos (by simp)] at hopen
    omega
  rw [inodeOpenDec, if_neg hpos]
  refine ⟨_, rfl, rfl, Inv.change [.stating fd r w node] [.dropping fd node false] _ h hfd
    (update_eq_self fd t.filemap).symm ?_ (.inl rfl) (fun n => ?_) (fun n => ?_) (fun n => rfl)
    rfl (by simp) fun _ _ => ⟨rfl, rfl⟩⟩
  · rintro b o c ⟨hcount, howned, hclosing, hlive, hnode⟩
    exact ⟨by simpa using hcount, by simpa using howned, by simpa using hclosing, hlive, hnode⟩
  · obtain rfl | hn := eq_or_ne n node
    · simp
      omega
    · simp [hn, Ne.symm hn]
  · by_cases hn : n = node
    · simp [hn]
    · simp [Ne.symm hn]

/-- A reference is given back. -/
lemma refDec_inv (h : Inv N t (pc :: L)) {pc' : Pc}
    (hpc : pc = .dropping fd node false ∧ pc' = .dropping fd node true ∨
      pc = .closing fd node false ∧ pc' = .closing fd node true) :
    ∃ t', inodeRefDec t node = .ok t' ∧ t'.running = t.running ∧ Inv N t' (pc' :: L) := by
  have hfd : fd < N := h.bound pc (.head _) fd (by
    obtain ⟨rfl, -⟩ | ⟨rfl, -⟩ := hpc <;> simp)
  have hkeeps : pc.keepsRef node := by obtain ⟨rfl, -⟩ | ⟨rfl, -⟩ := hpc <;> simp
  have hpos : t.inodeRef node ≠ 0 := by
    have href := h.inodeRef node
    grind
  have hold : ∀ n b, pc = .closing fd n b → (t.filemap fd).node = some n := fun n b hEq =>
    h.closingNode fd n b (hEq ▸ (.head _))
  rw [inodeRefDec, if_neg hpos]
  refine ⟨_, rfl, rfl, Inv.change [pc] [pc'] _ h hfd
    (update_eq_self fd t.filemap).symm ?_ (.inl rfl) (fun n => ?_) (fun n => ?_) (fun n => rfl) rfl
    ⟨?_, ?_, ?_⟩ fun _ _ => ⟨rfl, rfl⟩⟩
  · rintro b o c ⟨hcount, howned, hclosing, hlive, hnode⟩
    obtain ⟨rfl, rfl⟩ | ⟨rfl, rfl⟩ := hpc <;>
      exact ⟨by simpa using hcount, by simpa using howned, by simpa using hclosing, hlive, hnode⟩
  · obtain ⟨rfl, rfl⟩ | ⟨rfl, rfl⟩ := hpc <;> simp
  · obtain rfl | hn := eq_or_ne n node
    · obtain ⟨rfl, rfl⟩ | ⟨rfl, rfl⟩ := hpc <;> simp <;> omega
    · obtain ⟨rfl, rfl⟩ | ⟨rfl, rfl⟩ := hpc <;> simp [hn, Ne.symm hn]
  · obtain ⟨rfl, rfl⟩ | ⟨rfl, rfl⟩ := hpc <;> simp
  · intro n b hmem
    obtain ⟨rfl, rfl⟩ | ⟨rfl, rfl⟩ := hpc
    · simp at hmem
    · grind
  · obtain ⟨rfl, rfl⟩ | ⟨rfl, rfl⟩ := hpc <;> simp

/-- A slot that is freed is free. -/
lemma closeDone_inv (h : Inv N t (.closing fd node true :: L)) :
    Inv N (t.setFile fd { t.filemap fd with status := .none }) L := by
  have hfd : fd < N := h.bound _ (.head _) fd (by simp)
  have hclosed : (t.filemap fd).status = .closed ∧ (t.filemap fd).openCount = 0 := by
    by_contra hne
    have hclosing := (h.slots fd hfd).closing
    rw [if_neg hne, countP_cons_of_pos (by simp)] at hclosing
    omega
  obtain ⟨hst, hzero⟩ := hclosed
  refine Inv.change [.closing fd node true] [] _ h hfd rfl ?_ (.inl rfl) (fun n => ?_) (fun n => ?_)
    (fun n => ?_) rfl (by simp) fun _ _ => ⟨rfl, rfl⟩
  · rintro b o c ⟨hcount, howned, hclosing, -, -⟩
    simp [hst, hzero] at hcount howned hclosing
    exact ⟨by simp [hzero, hcount], by simp [howned], by simp [hclosing], fun _ => hzero, by simp⟩
  all_goals simp [holds, hst, hzero, setFile]

/-- An operation begins on an open slot. -/
lemma acquire_inv (h : Inv N t L) (hfd : fd < N) (hst : (t.filemap fd).status = .opened) (op : Op) :
    ∃ t', filemapAcquire t fd = .ok t' ∧ t'.running = t.running ∧ Inv N t' (.busy fd op :: L) := by
  rw [filemapAcquire]
  simp only [hst, ne_eq, not_true_eq_false, if_false]
  refine ⟨_, rfl, rfl, Inv.change [] [.busy fd op]
    { t.filemap fd with openCount := (t.filemap fd).openCount + 1 } h hfd (by simp [setFile, hst]) ?_
    (.inl rfl) (fun n => ?_) (fun n => ?_) (fun n => ?_) rfl (by simp) fun _ _ => ⟨rfl, rfl⟩⟩
  · rintro b o c ⟨hcount, howned, hclosing, -, hnode⟩
    simp [hst] at hcount howned hclosing
    exact ⟨by simp [hst, hcount]; omega, by simp [hst, howned], by simp [hclosing], by simp [hst], hnode⟩
  all_goals simp [holds, hst, setFile]

/-- `filemap_free` on a slot that was open starts `vfs_close`. -/
lemma filemapFree_closed (hst : (t.filemap fd).status = .closed)
    (hzero : (t.filemap fd).openCount = 0) (hnode : (t.filemap fd).node = some n)
    (hpos : t.inodeOpen n ≠ 0) : filemapFree t fd =
      .ok { t with
        inodeOpen := update t.inodeOpen n (t.inodeOpen n - 1)
        running := .closing fd n false :: t.running
        vfsClosed := bump t.vfsClosed fd n } := by
  simp only [filemapFree, hst, hzero, hnode, inodeOpenDec, if_neg hpos]
  rfl

/-- The last operation on a slot that is closed starts to free it: the slot gives the inode back. -/
lemma lastOut_inv (out : List Pc) (file : File) (h : Inv N t (out ++ L)) (hfd : fd < N)
    (hon : ∀ pc ∈ out, ∀ f, pc.On f → f = fd)
    (hplain : ∀ n, out.countP (takes n) = 0 ∧ out.countP (keepsRef n) = 0)
    (hfile : file.status = .closed ∧ file.openCount = 0 ∧ file.fd = (t.filemap fd).fd ∧
      file.node = (t.filemap fd).node) (hst : (t.filemap fd).status = .opened ∨ (t.filemap fd).status = .closed)
    (hpos : 0 < (t.filemap fd).openCount) (hslot : ∀ b o c, SlotOk (t.filemap fd) (out.countP (busyOn fd) + b)
      (out.countP (owns fd) + o) (out.countP (closes fd) + c) → b = 0 ∧ o = 0 ∧ c = 0) :
    ∃ n t', filemapFree (t.setFile fd file) fd = .ok t' ∧
      t'.running = .closing fd n false :: t.running ∧ Inv N t' (.closing fd n false :: L) := by
  obtain ⟨hclosed, hzero, hnum, hnode⟩ := hfile
  obtain ⟨n, hn⟩ := (h.slots fd hfd).node hst
  have hholds : ∀ m, (t.filemap fd).holds m = decide (m = n) := fun m => by
    have hstatus : ((t.filemap fd).status = .opened ∨
        (t.filemap fd).status = .closed ∧ 0 < (t.filemap fd).openCount) :=
      hst.imp_right fun hc => ⟨hc, hpos⟩
    obtain rfl | hm := eq_or_ne m n
    · simpa [holds, hn] using hstatus
    · simp [holds, hn, hm, Ne.symm hm]
  have hnot : ∀ m, file.holds m = false := fun m => by simp [holds, hclosed, hzero]
  have hopen := h.inodeOpen_pos (n := n) hfd (by simp [hholds])
  refine ⟨n, _, filemapFree_closed (by simp [setFile, hclosed]) (by simp [setFile, hzero])
    (by simp [setFile, hnode, hn]) (show t.inodeOpen n ≠ 0 by omega), rfl,
    Inv.change out [.closing fd n false] file h hfd rfl ?_ (.inl hnode) (fun m => ?_) (fun m => ?_) (fun m => ?_) hnum
    ⟨?_, ?_, by simp⟩ fun f hf => ⟨rfl, ?_⟩⟩
  · intro b o c hs
    obtain ⟨rfl, rfl, rfl⟩ := hslot b o c hs
    exact ⟨by simp [hclosed, hzero], by simp [hclosed], by simp [hclosed, hzero], fun _ => hzero,
      fun _ => ⟨n, hnode.trans hn⟩⟩
  · have hplain := (hplain m).1
    obtain rfl | hm := eq_or_ne m n
    · simp [hholds, hnot, hplain, setFile]
      omega
    · simp [hholds, hnot, hplain, hm, setFile]
  · obtain ⟨h1, h2⟩ := hplain m
    obtain rfl | hm := eq_or_ne m n
    · simp [hholds, hnot, h1, h2, setFile]
    · simp [hholds, hnot, h1, h2, hm, Ne.symm hm, setFile]
  · simp only [bump_apply]
    by_cases hm : m = n
    · simp [hholds, hnot, hm, setFile]
      omega
    · simp [hholds, hnot, hm, setFile]
  · intro pc hpc f hpcf
    obtain hpc | hpc := mem_append.mp hpc
    · exact hon pc hpc f hpcf
    · obtain rfl := mem_singleton.mp hpc
      exact (by simpa using hpcf : fd = f).symm
  · grind
  · funext m
    simp [bump_apply, hf, setFile]

/-- An open slot is closed: it is freed now, or by the last operation on it. -/
lemma close_inv (h : Inv N t L) (hfd : fd < N) (hst : (t.filemap fd).status = .opened) :
    ∃ t' new, filemapClose t fd = .ok t' ∧ t'.running = new ++ t.running ∧ Inv N t' (new ++ L) := by
  have hcount := (h.slots fd hfd).count
  rw [if_pos hst] at hcount
  rw [filemapClose]
  simp only [hst, ne_eq, not_true_eq_false, if_false]
  rw [if_neg (by omega)]
  split_ifs with hlast
  · obtain ⟨n, t', hfree, hrun, hinv⟩ := lastOut_inv []
      { t.filemap fd with status := .closed, openCount := (t.filemap fd).openCount - 1 }
      h hfd (by simp) (by simp) ⟨rfl, hlast, rfl, rfl⟩ (.inl hst) (by omega) (by
        rintro b o c ⟨hb, ho, hc, -, -⟩
        simp [hst] at hb ho hc
        exact ⟨by omega, ho, hc⟩)
    exact ⟨t', [.closing fd n false], hfree, hrun, hinv⟩
  · refine ⟨_, [], rfl, rfl, Inv.change [] []
      { t.filemap fd with status := .closed, openCount := (t.filemap fd).openCount - 1 } h hfd rfl ?_
      (.inl rfl) (fun n => ?_) (fun n => ?_) (fun n => ?_) rfl (by simp) fun _ _ => ⟨rfl, rfl⟩⟩
    · rintro b o c ⟨hb, ho, hc, -, hnode⟩
      simp [hst] at hb ho hc
      exact ⟨by simp [hb], by simp [ho], by simpa [hc] using hlast, by simp, fun _ => hnode (.inl hst)⟩
    all_goals
      grind [holds, setFile]

/-- The position of a slot does not matter. -/
lemma setPos_inv (h : Inv N t L) (hfd : fd < N) (pos : ℤ) :
    Inv N (t.setFile fd { t.filemap fd with pos := pos }) L :=
  Inv.change [] [] _ h hfd rfl (fun _ _ _ hs => { hs with }) (.inl rfl) (fun _ => rfl) (fun _ => rfl)
    (fun _ => rfl) rfl (by simp) fun _ _ => ⟨rfl, rfl⟩

/-- An operation ends. If it was the last one and the slot is closed, it frees the slot. -/
lemma release_inv {op : Op} (h : Inv N t (.busy fd op :: L)) :
    ∃ t' new, filemapRelease t fd = .ok t' ∧ t'.running = new ++ t.running ∧ Inv N t' (new ++ L) := by
  have hfd : fd < N := h.bound _ (.head _) fd (by simp)
  have hs := h.slots fd hfd
  have hcount := hs.count
  rw [countP_cons_of_pos (by simp)] at hcount
  have hpos : 0 < (t.filemap fd).openCount := by omega
  have hst : (t.filemap fd).status = .opened ∨ (t.filemap fd).status = .closed := by
    cases hst : (t.filemap fd).status with
    | none => exact absurd (hs.live (.inl hst)) (by omega)
    | init => exact absurd (hs.live (.inr hst)) (by omega)
    | opened => exact .inl rfl
    | closed => exact .inr rfl
  rw [filemapRelease]
  rw [if_neg (not_not.mpr hst), if_neg (by omega)]
  split_ifs with hlast
  · -- An open slot counts itself, so the slot is closed.
    have hclosed : (t.filemap fd).status = .closed := hst.resolve_left fun hopen => by
      rw [if_pos hopen] at hcount
      omega
    obtain ⟨n, t', hfree, hrun, hinv⟩ := lastOut_inv [.busy fd op]
      { t.filemap fd with openCount := (t.filemap fd).openCount - 1 }
      h hfd (by simp) (by simp) ⟨hclosed, hlast, rfl, rfl⟩ hst hpos (by
        rintro b o c ⟨hb, ho, hc, -, -⟩
        have hone : (t.filemap fd).openCount = 1 := by omega
        simp [hclosed, hone] at hb ho hc
        exact ⟨by omega, ho, hc⟩)
    exact ⟨t', [.closing fd n false], hfree, hrun, hinv⟩
  · refine ⟨_, [], rfl, rfl, Inv.change [.busy fd op] []
      { t.filemap fd with openCount := (t.filemap fd).openCount - 1 } h hfd rfl ?_
      (.inl rfl) (fun n => ?_) (fun n => ?_) (fun n => ?_) rfl (by simp) fun _ _ => ⟨rfl, rfl⟩⟩
    · rintro b o c ⟨hb, ho, hc, -, hnode⟩
      have hne : (t.filemap fd).openCount ≠ 0 := by omega
      simp [hne] at hb ho hc
      refine ⟨?_, by simpa using ho, by simpa [hc] using fun _ => hlast, ?_, hnode⟩
      · simp
        omega
      · grind
    all_goals
      have hpos' : 0 < (t.filemap fd).openCount - 1 := by omega
      simp [holds, hpos, hpos', setFile]

/-! ### The calls -/

/-- A step ends with the invariant for what is suspended then. -/
def Keeps (N : ℕ) (r : Except Panic Table) : Prop := ∃ t', r = .ok t' ∧ Inv N t' t'.running

/-- A call that returns an error code, or is suspended. -/
def KeepsFst (N : ℕ) (r : Except Panic (Table × Option Errno)) : Prop :=
  ∃ t' e, r = .ok (t', e) ∧ Inv N t' t'.running

lemma KeepsFst.keeps {r : Except Panic (Table × Option Errno)} (h : KeepsFst N r) :
    Keeps N (Prod.fst <$> r) := by
  obtain ⟨t', e, rfl, hinv⟩ := h
  exact ⟨t', rfl, hinv⟩

lemma fd2file_spec {i : ℤ} (hfile : fd2file N t i = some fd) :
    fd < N ∧ (t.filemap fd).status = .opened := by grind [fd2file]

section

variable (h : Inv N t t.running)
include h

lemma fileOpen_inv (mode : AccMode) (append : Bool) : KeepsFst N (fileOpen N t mode append) := by
  rw [fileOpen]
  cases mode.bits with
  | none => exact ⟨t, _, rfl, h⟩
  | some bits =>
    obtain ⟨readable, writable⟩ := bits
    cases hfind : findSlot N t none with
    | error e => exact ⟨t, _, rfl, h⟩
    | ok fd =>
      obtain ⟨hfd, hst⟩ := findSlot_spec hfind
      obtain ⟨t', halloc, hrun, -, hinv⟩ := alloc_inv h hfd hst readable writable append
      rw [← hrun] at hinv
      dsimp only
      rw [halloc]
      exact ⟨_, _, rfl, hinv.push⟩

lemma vfsOpened_inv (hpc : .opening fd r w a ∈ t.running)
    (result : Option Inode) : Keeps N (vfsOpened t fd r w a result) := by
  have hpop := h.pop hpc
  unfold vfsOpened
  cases result with
  | none =>
    obtain ⟨t', hfree, hrun, hinv⟩ := freeInit_inv (n := 0) hpop (.inl rfl)
    exact ⟨t', hfree, hrun ▸ hinv⟩
  | some node =>
    have hinc := inodeInc_inv hpop r w node
    split_ifs
    · exact ⟨_, rfl, hinc.push⟩
    · obtain ⟨t', hopened, hrun, hinv⟩ := fileOpened_inv hinc r w 0
      exact ⟨t', hopened, hrun ▸ hinv⟩

lemma stated_inv (hpc : .stating fd r w node ∈ t.running)
    (result : Option ℤ) : Keeps N (stated t fd r w node result) := by
  have hpop := h.pop hpc
  unfold stated
  cases result with
  | none =>
    obtain ⟨t', hdec, hrun, hinv⟩ := statFailed_inv hpop
    rw [← hrun] at hinv
    dsimp only
    rw [hdec]
    exact ⟨_, rfl, hinv.push⟩
  | some size =>
    obtain ⟨t', hopened, hrun, hinv⟩ := fileOpened_inv hpop r w size
    exact ⟨t', hopened, hrun ▸ hinv⟩

variable {refDone : Bool}

lemma dropStep_inv (hpc : .dropping fd node refDone ∈ t.running) : Keeps N (dropStep t fd node refDone) := by
  have hpop := h.pop hpc
  cases refDone with
  | true =>
    obtain ⟨t', hfree, hrun, hinv⟩ := freeInit_inv (r := false) (w := false) (a := false) hpop (.inr rfl)
    exact ⟨t', hfree, hrun ▸ hinv⟩
  | false =>
    obtain ⟨t', hdec, hrun, hinv⟩ := refDec_inv hpop (.inl ⟨rfl, rfl⟩)
    rw [← hrun] at hinv
    simp only [dropStep, Bool.false_eq_true, if_false]
    rw [hdec]
    exact ⟨_, rfl, hinv.push⟩

lemma closeStep_inv (hpc : .closing fd node refDone ∈ t.running) : Keeps N (closeStep t fd node refDone) := by
  have hpop := h.pop hpc
  cases refDone with
  | true => exact ⟨_, rfl, closeDone_inv hpop⟩
  | false =>
    obtain ⟨t', hdec, hrun, hinv⟩ := refDec_inv hpop (.inr ⟨rfl, rfl⟩)
    rw [← hrun] at hinv
    simp only [closeStep, Bool.false_eq_true, if_false]
    rw [hdec]
    exact ⟨_, rfl, hinv.push⟩

lemma fileClose_inv (i : ℤ) : KeepsFst N (fileClose N t i) := by
  rw [fileClose]
  cases hfile : fd2file N t i with
  | none => exact ⟨t, _, rfl, h⟩
  | some fd =>
    obtain ⟨hfd, hst⟩ := fd2file_spec hfile
    obtain ⟨t', new, hclose, hrun, hinv⟩ := close_inv h hfd hst
    dsimp only
    rw [hclose]
    exact ⟨t', _, rfl, hrun ▸ hinv⟩

lemma fileStart_inv (i : ℤ) (op : Op) : KeepsFst N (fileStart N t i op) := by
  rw [fileStart]
  cases hfile : fd2file N t i with
  | none => exact ⟨t, _, rfl, h⟩
  | some fd =>
    obtain ⟨hfd, hst⟩ := fd2file_spec hfile
    dsimp only
    split_ifs
    · exact ⟨t, _, rfl, h⟩
    · obtain ⟨t', hacq, hrun, hinv⟩ := acquire_inv h hfd hst op
      rw [← hrun] at hinv
      rw [hacq]
      exact ⟨_, _, rfl, hinv.push⟩

lemma fileFinish_inv {op : Op} (hpc : .busy fd op ∈ t.running)
    (outcome : Outcome) : Keeps N (fileFinish t fd op outcome) := by
  have hpop := h.pop hpc
  have hfd : fd < N := h.bound _ hpc fd (by simp)
  obtain ⟨t', new, hrel, hrun, hinv⟩ :=
    release_inv (setPos_inv hpop hfd (newPos ((t.pop (.busy fd op)).filemap fd) op outcome))
  exact ⟨t', hrel, hrun ▸ hinv⟩

/-- A second slot for the inode of an open one. -/
lemma fileDup_inv (i : ℤ) (request : Option ℤ) : KeepsFst N (fileDup N t i request) := by
  unfold fileDup
  cases hfile : fd2file N t i with
  | none => exact ⟨t, _, rfl, h⟩
  | some source =>
    obtain ⟨hsource, hopen⟩ := fd2file_spec hfile
    cases hfind : findSlot N t request with
    | error e => exact ⟨t, _, rfl, h⟩
    | ok dest =>
      obtain ⟨hdest, hst⟩ := findSlot_spec hfind
      have hne : source ≠ dest := by grind
      obtain ⟨node, hnode⟩ := (h.slots source hsource).node (.inl hopen)
      obtain ⟨t1, halloc, hrun1, hmap, hinv1⟩ := alloc_inv h hdest hst false false false
      have hsame : t1.filemap source = t.filemap source := by
        rw [hmap, update_of_ne hne]
      have hinit : (t1.filemap dest).status = .init := by rw [hmap, update_self]
      obtain ⟨t2, hopened, hrun2, hinv2⟩ := fileOpened_inv
        (inodeInc_inv hinv1 false false node) (t.filemap source).readable
        (t.filemap source).writable (t.filemap source).pos
      have hdup : filemapDup t1 dest source = .ok t2 := by
        rw [← hopened, filemapDup]
        rw [hsame, if_neg (not_not.mpr ⟨hinit, hopen⟩), hnode]
        rfl
      dsimp only
      rw [halloc, ok_bind, hdup]
      refine ⟨t2, _, rfl, ?_⟩
      rwa [hrun2, show (t1.inodeInc node).running = t1.running from rfl, hrun1]

end

/-- Operations that count alike are alike. -/
lemma Inv.regroup (h : Inv N t L) (hbusy : ∀ fd, L'.countP (busyOn fd) = L.countP (busyOn fd))
    (howns : ∀ fd, L'.countP (owns fd) = L.countP (owns fd))
    (hcloses : ∀ fd, L'.countP (closes fd) = L.countP (closes fd))
    (htakes : ∀ n, L'.countP (takes n) = L.countP (takes n))
    (hkeeps : ∀ n, L'.countP (keepsRef n) = L.countP (keepsRef n))
    (hclosing : ∀ fd n b, .closing fd n b ∈ L' → .closing fd n b ∈ L)
    (hpiping : ∀ a b, .piping a b ∈ L' → a ≠ b) : Inv N t L' := by
  refine ⟨fun f hf => ?_, h.fds, fun pc hpc f hpcf => ?_, fun f n c hpc => ?_, hpiping,
    fun n => ?_, fun n => ?_, h.closedOnce⟩
  · rw [hbusy, howns, hcloses]
    exact h.slots f hf
  · -- Some operation of the old ones is on the slot.
    have hold : ∀ p, L'.countP p = L.countP p → p pc → (∀ pc', p pc' → pc'.On f) →
        f < N := fun p hp hppc hon => by
      obtain ⟨pc', hpc', hp'⟩ := countP_pos_iff.mp (hp ▸ countP_pos_iff.mpr ⟨pc, hpc, hppc⟩)
      exact h.bound pc' hpc' f (hon pc' hp')
    obtain hb | ho | hc := hpcf
    · exact hold _ (hbusy f) hb fun _ => .inl
    · exact hold _ (howns f) ho fun _ h => .inr (.inl h)
    · exact hold _ (hcloses f) hc fun _ h => .inr (.inr h)
  · exact h.closingNode f n c (hclosing f n c hpc)
  · rw [htakes, h.inodeOpen]
  · rw [htakes, hkeeps, h.inodeRef]

/-- The owner of two slots counts as two owners of one. -/
lemma countP_owns_piping {a b : ℕ} (hne : a ≠ b) (fd : ℕ) : (piping a b :: L).countP (owns fd) =
      (opening b false false false :: .opening a false false false :: L).countP (owns fd) := by
  simp only [countP_cons, owns, decide_eq_true_eq, Bool.or_eq_true]
  by_cases ha : a = fd
  · grind
  · simp [ha]

lemma Inv.splitPipe {a b : ℕ} (h : Inv N t (.piping a b :: L)) :
    Inv N t (.opening b false false false :: .opening a false false false :: L) := by
  refine h.regroup (by simp) (fun fd => ?_) (by simp) (by simp) (by simp) (by simp) fun x y hpc => ?_
  · exact (countP_owns_piping (h.pipingNe a b (.head _)) fd).symm
  · exact h.pipingNe x y (mem_cons_of_mem _ (by simpa using hpc))

lemma Inv.joinPipe {a b : ℕ} (h : Inv N t (.opening b false false false ::
    .opening a false false false :: L)) (hne : a ≠ b) : Inv N t (.piping a b :: L) := by
  refine h.regroup (by simp) (countP_owns_piping hne) (by simp) (by simp) (by simp) (by simp) fun x y hpc => ?_
  obtain hEq | hpc := mem_cons.mp hpc
  · obtain ⟨rfl, rfl⟩ := piping.inj hEq
    exact hne
  · exact h.pipingNe x y (by simp [hpc])

section

variable (h : Inv N t t.running)
include h

lemma filePipe_inv : KeepsFst N (filePipe N t) := by
  unfold filePipe
  cases hfind0 : findSlot N t none with
  | error e => exact ⟨t, _, rfl, h⟩
  | ok fd0 =>
    obtain ⟨hfd0, hst0⟩ := findSlot_spec hfind0
    obtain ⟨t1, halloc0, hrun1, hmap, hinv1⟩ := alloc_inv h hfd0 hst0 false false false
    dsimp only
    rw [halloc0, ok_bind]
    cases hfind1 : findSlot N t1 none with
    | error e =>
      obtain ⟨t2, hfree, hrun2, hinv2⟩ := freeInit_inv (n := 0) hinv1 (.inl rfl)
      rw [hfree]
      refine ⟨t2, _, rfl, ?_⟩
      rwa [hrun2, hrun1]
    | ok fd1 =>
      obtain ⟨hfd1, hst1⟩ := findSlot_spec hfind1
      have hne : fd0 ≠ fd1 := by
        rintro rfl
        rw [hmap, update_self] at hst1
        cases hst1
      obtain ⟨t2, halloc1, hrun2, -, hinv2⟩ := alloc_inv hinv1 hfd1 hst1 false false false
      have hjoin := hinv2.joinPipe hne
      rw [← hrun1, ← hrun2] at hjoin
      dsimp only
      rw [halloc1]
      exact ⟨_, _, rfl, hjoin.push⟩

lemma piped_inv {a b : ℕ} (hpc : .piping a b ∈ t.running)
    (result : Option (Inode × Inode)) : Keeps N (piped t a b result) := by
  have hsplit := (h.pop hpc).splitPipe.perm (List.Perm.swap ..)
  unfold piped
  cases result with
  | none =>
    obtain ⟨t1, hfree1, hrun1, hinv1⟩ := freeInit_inv (n := 0) hsplit (.inl rfl)
    obtain ⟨t2, hfree2, hrun2, hinv2⟩ := freeInit_inv (n := 0) hinv1 (.inl rfl)
    dsimp only
    rw [hfree1, ok_bind]
    refine ⟨t2, hfree2, ?_⟩
    rwa [hrun2, hrun1]
  | some nodes =>
    obtain ⟨node0, node1⟩ := nodes
    obtain ⟨t1, hopened1, hrun1, hinv1⟩ := fileOpened_inv (inodeInc_inv hsplit false false node0) true false 0
    obtain ⟨t2, hopened2, hrun2, hinv2⟩ := fileOpened_inv (inodeInc_inv hinv1 false false node1) false true 0
    dsimp only
    rw [hopened1, ok_bind]
    refine ⟨t2, hopened2, ?_⟩
    rw [hrun2]
    change Inv N t2 t1.running
    rw [hrun1]
    exact hinv2

/-! ### Runs -/

/-- Every step keeps the invariant, and no assertion fails. -/
lemma step_inv (e : Event) : Keeps N (step N t e) := by
  have hsame : Keeps N (.ok t) := ⟨t, rfl, h⟩
  cases e with
  | openFile mode append => exact (fileOpen_inv h mode append).keeps
  | close i => exact (fileClose_inv h i).keeps
  | start i op => exact (fileStart_inv h i op).keeps
  | dup i request => exact (fileDup_inv h i request).keeps
  | pipe => exact (filePipe_inv h).keeps
  | vfsOpened fd r w a result => grind [step, vfsOpened_inv]
  | stated fd r w node result => grind [step, stated_inv]
  | dropStep fd node refDone => grind [step, dropStep_inv]
  | closeStep fd node refDone => grind [step, closeStep_inv]
  | finish fd op outcome => grind [step, fileFinish_inv]
  | piped a b result => grind [step, piped_inv]

lemma run_inv (events : List Event) : Keeps N (run N t events) := by
  induction events generalizing t with
  | nil => exact ⟨t, rfl, h⟩
  | cons e events ih =>
    obtain ⟨t', hstep, hinv⟩ := step_inv h e
    rw [run, hstep, ok_bind]
    exact ih hinv

end

/-- Over every interleaving of opens, closes, duplications, pipes, reads, writes and seeks on one
table, with operations suspended wherever they can sleep: no assertion fails, and the counts of slots
and inodes are right. -/
theorem file_table_counts (N : ℕ) (events : List Event) :
    ∃ t, run N filemapInit events = .ok t ∧ TableOk N t := by
  obtain ⟨t, hrun, hinv⟩ := run_inv inv_filemapInit events
  exact ⟨t, hrun, hinv.tableOk⟩

end UcoreKernel.FileTable
