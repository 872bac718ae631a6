import UcoreKernel.Lib.Guarded
import UcoreKernel.Fs.Sfs.Removal

/-!
Runs of a volume: everything that the other parts of the kernel do to it, one operation after the other.
-/

namespace UcoreKernel.Sfs

open UcoreKernel.Except (Ensures)
open Guarded

/-- What an operation leaves of a file. -/
lemma FileState.exec_spec (w : Width) {s : FileState} (hok : FileOk s.fs s.sin)
    (hsize : s.sin.din.size < 2 ^ 32) (op : FileOp) : Ensures Vol.Tolerated (s.exec w op) fun r =>
      FileOk r.1.fs r.1.sin ∧ Resized s.fs s.sin r.1.fs r.1.sin ∧ r.1.sin.din.size < 2 ^ 32 := by
  have hmax : maxFileSize < 2 ^ 32 := by decide
  have hsame : FileOk s.fs s.sin ∧ Resized s.fs s.sin s.fs s.sin ∧ s.sin.din.size < 2 ^ 32 :=
    ⟨hok, Resized.refl hok.toMapped, hsize⟩
  -- a transfer
  have hio : ∀ (io : Io) offset len, io.Provides len →
      Ensures Vol.Tolerated (sfsIoNolock w s.fs s.sin io offset len) fun r =>
        FileOk r.1 r.2.1 ∧ Resized s.fs s.sin r.1 r.2.1 ∧ r.2.1.din.size < 2 ^ 32 := by
    intro io offset len hbuf
    rcases sfsIoNolock_spec w offset hok hbuf with ⟨err, hio, -⟩ |
      ⟨pos, endpos, -, -, hlt, hend, -, ⟨-, -, hio⟩ | ⟨-, fs', sin', r, hio, hran⟩⟩
    · rw [hio]
      exact hsame
    · rw [hio]
      exact .inr (.inr (.inl rfl))
    · rw [hio]
      refine ⟨hran.ok, hran.resized, ?_⟩
      have hle : pos + r.alen ≤ endpos := by
        obtain ⟨-, heq, -⟩ | ⟨-, hlt, -⟩ := hran.ended <;> omega
      rw [hran.size]
      omega
  -- a change of the size
  have hend : ∀ {x}, Ensures (· = .truncfileBlocks) x (Remains s.fs s.sin) → Ensures Vol.Tolerated x fun r =>
      FileOk r.1 r.2.1 ∧ Resized s.fs s.sin r.1 r.2.1 ∧ r.2.1.din.size < 2 ^ 32 := fun hx =>
    (hx.tolerate fun _ he => .inr (.inr (.inr he))).mono fun r ⟨hr, hresized, hsize'⟩ =>
      ⟨hr, hresized, by omega⟩
  cases op with
  | read offset len => exact (hio .read offset len trivial).bind fun r hr => hr
  | write offset buf => exact (hio (.write buf) offset buf.length (le_refl buf.length)).bind fun r hr => hr
  | truncate len => exact (hend (sfsTruncfile_ensures hok len)).bind fun r hr => hr
  | seek pos => exact (hend (sfsTryseek_ensures hok pos)).bind fun r hr => hr

namespace Vol

variable {d n : ℕ} {v v' : Vol} {node : Node} {name : Name} {mem : ℕ → Bool} {e : Event}

/-- An operation on a file that is not dirty marks it, if it changes the number of its blocks. -/
def Marks (w : Width) (v : Vol) : Event → Prop
  | .file n op => ∀ node f r, v.cache n = some node → node.sin.din.type ≠ .dir → node.sin.din.nlinks ≠ 0 →
      FileState.exec w ⟨v.fs, node.sin⟩ op = .ok (f, r) → f.sin.din.blocks ≠ node.sin.din.blocks →
      f.sin.dirty = true
  | _ => True

/-- A file changes, and the names stay the same. -/
lemma Inv.fileOp (h : v.Inv) (w : Width) (hcache : v.cache n = some node) (op : FileOp) :
    Ensures Tolerated (v.fileOp w n op) fun v' => v'.Sound ∧ v'.tree = v.tree ∧ v'.fs.blocks = v.fs.blocks ∧
        (v.Marks w (.file n op) → v.Tracked → v'.Tracked) := by
  have hn := h.sound.mem hcache
  have hshaped := h.sound.shaped n hn
  rw [Vol.fileOp, sin_of_cache hcache]
  split_ifs with htype
  · exact ⟨h.sound, rfl, rfl, fun _ htr => htr⟩
  · have hfileOk := h.sound.fileOk hn htype
    rw [sin_of_cache hcache] at hfileOk
    rw [din_of_cache hcache] at htype hshaped
    have hexec := FileState.exec_spec w (s := ⟨v.fs, node.sin⟩) hfileOk hshaped.fits.size op
    refine Ensures.bind_eq hexec fun r hr ⟨hok, hresized, hsize⟩ => ?_
    obtain ⟨⟨fs', sin'⟩, res⟩ := r
    have hsame : sin'.din.type = node.sin.din.type := hresized.type
    have hlinks : sin'.din.nlinks = node.sin.din.nlinks := hresized.nlinks
    have htype' : sin'.din.type ≠ .dir := fun hdir => htype (hsame.symm.trans hdir)
    obtain ⟨hsound, htree, -, -, htracked⟩ := h.sound.put hcache hok.toMapped hresized hsize
      (fun _ => hok.size) fun hdir => absurd hdir htype'
    refine ⟨hsound, ?_, hresized.kept.blocks, fun hmarks htr => ?_⟩
    · refine htree.trans ?_
      have heq : sin'.din.record fs' node.removed = node.sin.din.record v.fs node.removed := by
        refine Tree.Record.ext (congrArg some hsame) hlinks (funext fun i => ?_) ?_ ?_ rfl
        all_goals exact (if_neg htype').trans (if_neg htype).symm
      rw [heq, ← h.sound.record_of_cache hcache, Tree.setRecord_self]
    · by_cases h0 : node.sin.din.nlinks = 0
      · exact h.sound.put_unlinked hcache hresized (hlinks.trans h0) htr
      · refine htracked (fun hclean => ?_) htr
        by_contra hne
        have hdirty := hmarks node ⟨fs', sin'⟩ res hcache htype h0 hr hne
        rw [hclean] at hdirty
        cases hdirty

/-! ### Single events -/

/-- The event looks up the parent of a directory. -/
def ParentOf (v : Vol) (d : ℕ) : Event → Prop
  | .lookup _ d' name => d' = d ∧ name = dotdot ∧ v.HasDir d
  | _ => False

/-- No inode has more links than `nlinks` can count, and a parent is looked up only if it is there. -/
structure Legal (v : Vol) (e : Event) : Prop where
  links : v.tree.NoWrap
  parent : ∀ d, v.ParentOf d e → (v.din d).parent ∈ v.inodes

/-- What an event leaves behind. -/
structure Stepped (w : Width) (v : Vol) (e : Event) (v' : Vol) : Prop where
  sound : v'.Sound
  turn : v.tree.Turn v'.tree
  blocks : v'.fs.blocks = v.fs.blocks
  tracked : v.Marks w e → v.Tracked → v'.Tracked

lemma After.stepped {w : Width} (h : v.After v') : Stepped w v e v' :=
  ⟨h.sound, h.turn, h.blocks, fun _ => h.tracked⟩

variable (h : v.Inv)
include h

/-- One more reference. -/
lemma Inv.refInc (n : ℕ) : v.After (v.refInc n) := by
  rw [Vol.refInc]
  cases hcache : v.cache n with
  | none =>
    have hsame : v.setNode n none = v := by
      cases v with
      | mk fs cache inodes => grind [setNode, Vol.mk.injEq]
    rw [Option.map_none, hsame]
    exact After.refl h
  | some node =>
    obtain ⟨hsound, htree, hfollows⟩ := h.sound.setNode hcache { node with ref := node.ref + 1 } rfl
      ⟨Nat.succ_pos _, (h.sound.cached n node hcache).2.2⟩
    have hsame : ({ v.tree.record n with removed := node.removed } : Tree.Record) = v.tree.record n := by
      rw [← removed_of_cache hcache]
      rfl
    rw [hsame, Tree.setRecord_self] at htree
    exact ⟨hfollows, hsound, htree ▸ Tree.Turn.refl _⟩

/-- One reference less. -/
lemma Inv.refDec (hw : v.tree.NoWrap) (n : ℕ) : ∃ v', v.refDec n = .ok v' ∧ v.After v' := by
  cases hcache : v.cache n with
  | none =>
    refine ⟨v, ?_, After.refl h⟩
    rw [Vol.refDec, hcache]
  | some node => exact h.refDec_after h.sound (.inl rfl) (Follows.refl v) hcache fun _ => hw n

lemma Inv.loadParent (hparent : (v.din d).parent ∈ v.inodes) :
    ∃ r, v.loadParent mem d = .ok r ∧ v.After r.1 := by
  obtain ⟨⟨v', err⟩, hload, hafter⟩ := h.loadInode hparent (mem 0) (mem 1)
  rw [Vol.loadParent, hload, ok_bind]
  cases err with
  | some | none => exact ⟨_, rfl, hafter⟩

lemma Inv.sfsLookup (hd : v.HasDir d) (hparent : name = dotdot → (v.din d).parent ∈ v.inodes) :
    ∃ r, v.sfsLookup mem d name = .ok r ∧ v.After r.1 := by
  rw [Vol.sfsLookup]
  split_ifs with hdot hdotdot hlen
  · exact ⟨_, rfl, h.refInc d⟩
  · exact h.loadParent (hparent hdotdot)
  · exact ⟨_, rfl, After.refl h⟩
  · exact h.sfsLookupOnce hd (not_lt.mp hlen)

/-- Every event keeps a volume in order, or it fails in a way that is tolerated. -/
theorem Inv.step (w : Width) (hlegal : v.Legal e) :
    Except.Ensures Tolerated (v.step w e) (Stepped w v e) := by
  have hsame : Stepped w v e v := (After.refl h).stepped
  have hw := hlegal.links
  have hgo : ∀ {α : Type} {x : Except Panic (Vol × α)}, Ensures Tolerated x (fun r => v.After r.1) →
      Ensures Tolerated (Prod.fst <$> x) (Stepped w v e) := fun hx => .map (hx.mono fun _ => After.stepped)
  cases e with
  | getRoot mem => exact hgo (.of_ok (h.loadInode (mem_of_kind h.names.root.1) (mem 0) (mem 1)))
  | lookup mem d name =>
    exact .ite (fun hd => hgo (.of_ok (h.sfsLookup hd fun hname => hlegal.parent d ⟨rfl, hname, hd⟩))) fun _ => hsame
  | create mem d name excl => exact .ite (fun hd => hgo (h.sfsCreate hw hd excl)) fun _ => hsame
  | mkdir mem d name => exact .ite (fun hd => hgo (h.sfsMkdir hd)) fun _ => hsame
  | link mem d name n => exact .ite (fun hd => hgo (h.sfsLink hd.1 hd.2)) fun _ => hsame
  | unlink mem d name => exact .ite (fun hd => hgo (h.sfsUnlink hw hd)) fun _ => hsame
  | rename mem d name d' newName => exact .ite (fun hd => hgo (h.sfsRename hw hd.1 hd.2)) fun _ => hsame
  | file n op =>
    refine .ite (fun hn => ?_) fun _ => hsame
    obtain ⟨node, hcache⟩ := Option.isSome_iff_exists.mp hn
    refine (h.fileOp w hcache op).mono fun v' hv' => ⟨hv'.1, ?_, hv'.2.2.1, hv'.2.2.2⟩
    rw [hv'.2.1]
    exact Tree.Turn.refl _
  | fsync n =>
    refine .ite (fun hn => ?_) fun _ => hsame
    obtain ⟨node, hcache⟩ := Option.isSome_iff_exists.mp hn
    obtain ⟨v', hsync, hturns, -⟩ | ⟨hsync, -⟩ := h.sound.fsync hcache
    · exact .map (.of_ok ⟨_, hsync, (hturns.after (Tree.Turn.refl _)).stepped⟩)
    · exact .map (.of_ok ⟨_, hsync, hsame⟩)
  | refInc n => exact (h.refInc n).stepped
  | refDec n =>
    obtain ⟨v', hdec, hafter⟩ := h.refDec hw n
    exact .of_ok ⟨v', hdec, hafter.stepped⟩

lemma Inv.step_inv (w : Width) (hlegal : v.Legal e) : Ensures Tolerated (v.step w e) Inv :=
  (h.step w hlegal).mono fun _ hstepped => h.of_turn hstepped.sound hstepped.turn

end Vol

/-! ### Small volumes -/

/-- Every entry has a block of its own. -/
lemma Vol.Sound.entries_lt {v : Vol} (h : v.Sound) (hroot : blknRoot ∈ v.inodes) :
    {x | v.tree.entry x ≠ none}.ncard < v.fs.blocks := by
  have hplace : ∀ x, v.tree.entry x ≠ none → ∃ p, Pos.ofIndex x.2 = some p ∧ v.place (x.1, some p) ≠ 0 := by
    rintro ⟨d, i⟩ hx
    have hd : d ∈ v.inodes ∧ (v.din d).type = .dir := by
      by_contra hd
      exact hx (if_neg hd)
    obtain ⟨e, he⟩ := Option.ne_none_iff_exists'.mp hx
    rw [show v.tree.entry (d, i) = entries v.fs (v.din d) i from if_pos hd] at he
    obtain ⟨p, hp, hne⟩ := (h.shaped d hd.1).mapped i (lt_blocks_of_entries he)
    grind [Vol.place_pos]
  have hle : {x | v.tree.entry x ≠ none}.ncard ≤ ((Finset.range v.fs.blocks).erase 0 : Set ℕ).ncard := by
    refine Set.ncard_le_ncard_of_injOn (fun x => v.place (x.1, Pos.ofIndex x.2)) (fun x hx => ?_)
      (fun x hx y hy heq => ?_) (Finset.finite_toSet _)
    · obtain ⟨p, hp, hne⟩ := hplace x hx
      rw [hp, Finset.mem_coe, Finset.mem_erase, Finset.mem_range]
      exact ⟨hne, (h.owns.used _ hne).2.1⟩
    · obtain ⟨p, hp, hne⟩ := hplace x hx
      obtain ⟨q, hq, -⟩ := hplace y hy
      dsimp only at heq
      rw [hp, hq] at heq
      have hinj := h.owns.inj _ _ hne heq
      grind [Pos.ofIndex_inj]
  have hpos : 0 < v.fs.blocks := Nat.zero_lt_of_lt (h.used hroot).2.1
  grind [Set.ncard_coe_finset]

/-- An inode has little more links than there are entries. -/
lemma Tree.Wired.links_le {t : Tree} (h : t.Wired) (n : ℕ) : t.links n ≤ {x | t.entry x ≠ none}.ncard + 3 := by
  have hself : t.selfLinks n ≤ 2 := by
    rw [Tree.selfLinks]
    split_ifs <;> omega
  by_cases hn : t.kind n = some .dir
  · have hrefs : t.refs n ≤ 1 := by
      refine (Set.ncard_le_one (h.finite_of (Tree.Names n) fun _ h => by cases h)).mpr fun x hx y hy => ?_
      obtain ⟨⟨a, m⟩, ha, hm⟩ := Option.map_eq_some_iff.mp hx
      obtain ⟨⟨b, m'⟩, hb, hm'⟩ := Option.map_eq_some_iff.mp hy
      obtain rfl := hm
      obtain rfl := hm'
      exact h.once x y a b m' hn ha hb
    have hsub : t.subdirs n ≤ {x | t.entry x ≠ none}.ncard := by
      refine Set.ncard_le_ncard (fun x hx hnone => ?_) h.finite
      have hbind := hx.2
      rw [hnone] at hbind
      cases hbind
    rw [Tree.links]
    omega
  · have hsub : t.subdirs n = 0 := by
      refine Tally.tally_eq_zero fun x hx => hn ?_
      obtain ⟨rfl, hbind⟩ := hx
      refine (h.inDir x fun hnone => ?_).1
      rw [hnone] at hbind
      cases hbind
    have hrefs : t.refs n ≤ {x | t.entry x ≠ none}.ncard := by
      refine Set.ncard_le_ncard (fun x hx hnone => ?_) h.finite
      grind [Tree.Names]
    rw [Tree.links]
    omega

/-- On a volume of less than `2 ^ 16 - 2` blocks no link counter overflows. -/
theorem Vol.Inv.noWrap {v : Vol} (h : v.Inv) (hsmall : v.fs.blocks ≤ 65533) : v.tree.NoWrap := by
  intro n
  have hentries := h.sound.entries_lt (Vol.mem_of_kind h.names.root.1)
  have hlinks := h.names.links_le n
  omega

/-- A volume in order, as it is after it has been mounted and used for a while. -/
structure Volume extends Vol where
  inv : toVol.Inv
  tracked : toVol.Tracked

namespace Vol

variable {v v' : Vol} {es : List Event}

/-- The event looks up no parent. -/
def Event.Forward : Event → Prop
  | .lookup _ _ name => name ≠ dotdot
  | _ => True

lemma Event.Forward.not_parentOf {e : Event} (h : e.Forward) (v : Vol) (d : ℕ) : ¬v.ParentOf d e := by
  cases e with
  | lookup mem d' name => exact fun hparent => h hparent.2.1
  | _ => exact id

/-- On a small volume every run is legal that looks up no parents. -/
lemma Inv.allSafe_legal (h : v.Inv) (w : Width) (hsmall : v.fs.blocks ≤ 65533) (hes : ∀ e ∈ es, e.Forward) :
    AllSafe (Vol.step w) Legal v es := by
  refine allSafe_of_inv (fun v => v.Inv ∧ v.fs.blocks ≤ 65533) (fun v e he hv => ?_)
    (fun v e v' hv hlegal hstep => ?_) ⟨h, hsmall⟩
  · exact ⟨hv.1.noWrap hv.2, fun d hd => absurd hd ((hes e he).not_parentOf v d)⟩
  · have hstepped := hv.1.step w hlegal
    rw [hstep] at hstepped
    have hblocks : v'.fs.blocks = v.fs.blocks := hstepped.blocks
    exact ⟨hv.1.of_turn hstepped.sound hstepped.turn, hblocks ▸ hv.2⟩

/-- A legal run ends with a volume in order. -/
lemma Inv.of_run {w : Width} (h : v.Inv) (hlegal : AllSafe (Vol.step w) Legal v es)
    (hrun : es.foldlM (Vol.step w) v = .ok v') : v'.Inv := by
  refine inv_of_allSafe Inv (fun v e v' hv hlegal hstep => ?_) h hlegal hrun
  have hinv := hv.step_inv w hlegal
  rw [hstep] at hinv
  exact hinv

end Vol

end UcoreKernel.Sfs
