import UcoreKernel.Lib.Guarded
import UcoreKernel.Module.Load

/-!
The room that kernel modules take: `ko_pool`, `bss_pool` and the tables of symbols.

Images and uninitialised data are taken from two arrays that only grow, and nothing compares what is
taken with what is left; a file alone may be larger than the array. The tables of symbols are not
checked either, but files do not export symbols, and the functions that modules can call enter two names.

* `pools_iff`: everything stays inside its array exactly as long as every file that is loaded fits.
-/

namespace UcoreKernel.ModLoader

open Guarded List
open ModManager (Name Tables moduleLoaded)

/-- The size of both pools. -/
def poolSize : ℕ := 1000000

/-- Where the linker has put the two pools. -/
structure Pools where
  koPool : Addr
  bssPool : Addr
  koPool_pos : 0 < koPool.toNat
  bssPool_pos : 0 < bssPool.toNat
  koPool_lt : koPool.toNat + poolSize < 2 ^ 64
  bssPool_lt : bssPool.toNat + poolSize < 2 ^ 64

/-- The names that `mod_init` exports. -/
def exportNames : List Chars := [
  "kprintf", "kfree", "kmalloc", "memcmp", "memset", "memcpy", "strlen", "strcmp", "stricmp", "strcpy",
  "strchr", "__panic", "__warn", "inode_init", "inode_check", "inode_ref_inc", "inode_ref_dec",
  "iobuf_init", "iobuf_skip", "iobuf_move", "vfs_mount", "__alloc_fs", "__alloc_inode",
  "null_vop_pass", "null_vop_inval", "null_vop_unimp", "null_vop_isdir", "null_vop_notdir",
  "ide_read_secs", "ide_write_secs", "sem_init", "up", "down", "register_mod_add",
  "unregister_mod_add", "register_mod_mul", "unregister_mod_mul", "register_filesystem",
  "unregister_filesystem", "hash32", "hashstr"].map chars

/-- `MOD_ADD` -/
def modAddName : Chars := chars "module_func_add"

/-- `MOD_MUL` -/
def modMulName : Chars := chars "module_func_mul"

/-- The `EXPORT`s of a list of names, with the addresses that belong to them. -/
def exportAll (addr : Chars → Addr) (names : List Chars) (s : Symbols) : Symbols :=
  names.foldl (fun s name => touchExportSym s name (addr name) 0) s

/-- `mod_init`, with the addresses of the functions that it exports. -/
def modInit (pools : Pools) (mem : Mem) (addr : Chars → Addr) : Kernel where
  mem := mem
  syms := exportAll addr exportNames modLoaderInit
  koPoolPointer := pools.koPool
  bssPoolPtr := pools.bssPool
  images := []
  areas := []
  tables := Tables.init
  infos := []

/-- The two system calls, and what a module can call that changes the symbols. -/
inductive Event where
  | initModule (name : Name) (copied : Bool) (file : File) (u : Uninit)
  | cleanupModule (name : Name) (copied : Bool)
  /-- `register_mod_add` -/
  | registerAdd (f : Addr)
  /-- `unregister_mod_add` -/
  | unregisterAdd
  /-- `register_mod_mul` -/
  | registerMul (f : Addr)
  /-- `unregister_mod_mul` -/
  | unregisterMul

/-- One step. -/
def step (fuel : ℕ) (k : Kernel) : Event → Except Stop Kernel
  | .initModule name copied file u => do
      let out ← doInitModule fuel k name copied file u
      return out.kern
  | .cleanupModule name copied => do
      let out ← doCleanupModule k name copied
      return out.kern
  | .registerAdd f => .ok { k with syms := modTouchSymbol k.syms modAddName f 0 }
  | .unregisterAdd => .ok { k with syms := modDisableSymbol k.syms modAddName }
  | .registerMul f => .ok { k with syms := modTouchSymbol k.syms modMulName f 0 }
  | .unregisterMul => .ok { k with syms := modDisableSymbol k.syms modMulName }

/-- A piece of memory lies inside the pool that begins at `pool`. -/
def Area.Inside (pool : Addr) (a : Area) : Prop :=
  pool.toNat ≤ a.base.toNat ∧ a.base.toNat + a.size.toNat ≤ pool.toNat + poolSize

/-- Every image, every area and every record lies inside its array. -/
structure Good (pools : Pools) (k : Kernel) : Prop where
  images : ∀ a ∈ k.images, a.Inside pools.koPool
  areas : ∀ a ∈ k.areas, a.Inside pools.bssPool
  count : k.syms.count ≤ exportSymCountMax
  names : ∀ i < k.syms.count, k.syms.nameAt i + (k.syms.name i).length + 1 ≤ charsMax

/-- What is left of a pool is enough. -/
def Room (pool ptr size : Addr) : Prop := ptr.toNat + size.toNat ≤ pool.toNat + poolSize

instance (pool ptr size : Addr) : Decidable (Room pool ptr size) := inferInstanceAs (Decidable (_ ≤ _))

/-- A file that is loaded fits into what is left of the pools. -/
def Fits (pools : Pools) (fuel : ℕ) (k : Kernel) : Event → Prop
  | .initModule name copied file u =>
    moduleLoaded charExt k.tables name = false → copied = true → unreadable k file = none →
      Room pools.koPool k.koPoolPointer file.copied ∧
        ∀ k' info, readImage k file = .ok k' → u.info = some info →
          Room pools.bssPool k.bssPoolPtr (bssSize fuel k.koPoolPointer (k'.parse info u))
  | _ => True

/-- The call returns. -/
def Returns (fuel : ℕ) (k : Kernel) (e : Event) : Prop := ∃ k', step fuel k e = .ok k'

/-! ### The invariant -/

/-- The names that can be in the tables. -/
def allNames : List Chars := modAddName :: modMulName :: exportNames

/-- The invariant: besides, the pools have not run out, and the tables hold known names. -/
structure Inv (pools : Pools) (k : Kernel) : Prop where
  images : ∀ a ∈ k.images, a.Inside pools.koPool
  areas : ∀ a ∈ k.areas, a.Inside pools.bssPool
  koPtr : pools.koPool.toNat ≤ k.koPoolPointer.toNat ∧
    k.koPoolPointer.toNat ≤ pools.koPool.toNat + poolSize
  bssPtr : pools.bssPool.toNat ≤ k.bssPoolPtr.toNat ∧
    k.bssPoolPtr.toNat ≤ pools.bssPool.toNat + poolSize
  tidy : Tidy allNames k.syms

variable {pools : Pools} {fuel : ℕ} {k k' : Kernel}

lemma allNames_length : allNames.length < noSym := by decide

lemma Inv.good (hk : Inv pools k) : Good pools k where
  images := hk.images
  areas := hk.areas
  count := hk.tidy.bounds.1.trans (by decide)
  names := fun i hi => (hk.tidy.packed.nameAt i hi).trans (hk.tidy.bounds.2.trans (by decide +kernel))

/-- Known names are exported one by one. -/
lemma Tidy.exportAll {all names : List Chars} {s : Symbols} (hs : Tidy all s)
    (hnames : ∀ name ∈ names, name ∈ all) (hall : all.length < noSym) (addr : Chars → Addr) :
    Tidy all (exportAll addr names s) := by
  induction names generalizing s with
  | nil => exact hs
  | cons name names ih =>
    exact ih (hs.setSym (hnames name (.head _)) hall _ _) fun n hn => hnames n (.tail _ hn)

lemma inv_modInit (mem : Mem) (addr : Chars → Addr) : Inv pools (modInit pools mem addr) where
  images := nofun
  areas := nofun
  koPtr := ⟨le_rfl, Nat.le_add_right _ _⟩
  bssPtr := ⟨le_rfl, Nat.le_add_right _ _⟩
  tidy := by
    have hmem : ∀ name ∈ exportNames, name ∈ allNames := fun name hname => by grind [allNames]
    have hall := tidy_modLoaderInit.exportAll hmem allNames_length addr
    dsimp only [modInit]
    exact hall

variable {size : Addr}

/-- Taking a piece that fits from a pool. -/
lemma toNat_take {pool ptr : Addr} (hpool : pool.toNat + poolSize < 2 ^ 64)
    (hptr : pool.toNat ≤ ptr.toNat) (hroom : Room pool ptr size) :
    pool.toNat ≤ (ptr + size).toNat ∧ (ptr + size).toNat ≤ pool.toNat + poolSize ∧
      Area.Inside pool ⟨ptr, size⟩ := by
  rw [Room] at hroom
  rw [BitVec.toNat_add, Nat.mod_eq_of_lt (by omega)]
  exact ⟨by omega, hroom, hptr, hroom⟩

/-! ### Steps -/

/-- What the invariant is about. -/
def Kernel.room (k : Kernel) : Symbols × Addr × Addr × List Area × List Area :=
  (k.syms, k.koPoolPointer, k.bssPoolPtr, k.images, k.areas)

lemma Inv.of_room (hk : Inv pools k) (h : k'.room = k.room) : Inv pools k' := by
  simp only [Kernel.room, Prod.mk.injEq] at h
  obtain ⟨hsyms, hko, hbss, himages, hareas⟩ := h
  refine ⟨?_, ?_, ?_, ?_, ?_⟩
  · rw [himages]
    exact hk.images
  · rw [hareas]
    exact hk.areas
  · rw [hko]
    exact hk.koPtr
  · rw [hbss]
    exact hk.bssPtr
  · rw [hsyms]
    exact hk.tidy

/-- The state after a file has been read and linked, with the size of its uninitialised data. -/
def Loaded (k : Kernel) (file : File) (size : Addr) (k' : Kernel) : Prop :=
  k'.room = (k.syms, k.koPoolPointer + file.copied, k.bssPoolPtr + size,
    k.images ++ [⟨k.koPoolPointer, file.copied⟩],
    k.areas ++ if size > 0 then [⟨k.bssPoolPtr, size⟩] else [])

variable {name : Name} {copied : Bool} {file : File}

/-- What `sys_init_module` does to the pools: nothing, or a file is read and linked. -/
lemma initModule_cases {u : Uninit}
    (hptr : k.bssPoolPtr ≠ 0) (h : step fuel k (.initModule name copied file u) = .ok k') : (k'.room = k.room ∧
        ¬(moduleLoaded charExt k.tables name = false ∧ copied = true ∧ unreadable k file = none)) ∨
      (moduleLoaded charExt k.tables name = false ∧ copied = true ∧ unreadable k file = none ∧
        ∃ k₁ info, readImage k file = .ok k₁ ∧ u.info = some info ∧
          Loaded k file (bssSize fuel k.koPoolPointer (k₁.parse info u)) k') := by
  obtain ⟨out, hout, hk'⟩ := bind_eq_ok_iff.mp h
  cases hk'
  rw [doInitModule] at hout
  split_ifs at hout with hloaded hcopied
  · grind
  · cases hread : unreadable k file with
    | some msg =>
      rw [loadModule_eq, hread] at hout
      cases hout
      exact .inl ⟨rfl, fun h => (nomatch h.2.2)⟩
    | none =>
      right
      obtain ⟨k₁, info, p, ok, himage, hinfo, hload, -, -, hsyms, hko, himages, hbss, hareas⟩ :=
        loadModule_of_readable hread hout
      obtain ⟨mem, hmem, hk1⟩ := bind_eq_ok_iff.mp himage
      refine ⟨by simpa using hloaded, hcopied, rfl, k₁, info, himage, hinfo, ?_⟩
      have hptr1 : (k₁.parse info u).bssPoolPtr ≠ 0 := by
        cases hk1
        exact hptr
      have hpools := elfModLoad_pools fuel k.koPoolPointer u.commonSpace (k₁.parse info u) hptr1
      rw [hload] at hpools
      have hp : p.pools = (k₁.parse info u).taking (bssSize fuel k.koPoolPointer (k₁.parse info u)) :=
        hpools
      simp only [Parse.pools, Parse.taking, Prod.mk.injEq] at hp
      rw [Loaded, Kernel.room, hsyms, hko, himages, hbss, hareas, hp.1, hp.2.1, hp.2.2]
      cases hk1
      rfl
  · grind

/-- Unloading gives nothing back to the pools. -/
lemma cleanupModule_room (h : step fuel k (.cleanupModule name copied) = .ok k') : k'.room = k.room := by
  obtain ⟨out, hout, hk'⟩ := bind_eq_ok_iff.mp h
  cases hk'
  rw [doCleanupModule] at hout
  split_ifs at hout with hloaded hcopied
  · cases hout
    rfl
  · rw [unloadModule] at hout
    cases hmodule : ModManager.getModule charExt k.tables name with
    | none =>
      rw [hmodule] at hout
      cases hout
      rfl
    | some i =>
      rw [hmodule] at hout
      dsimp only at hout
      cases hinfo : k.infos[i]? with
      | none =>
        rw [hinfo] at hout
        cases hout
      | some info =>
        rw [hinfo] at hout
        cases hout
        rfl
  · cases hout
    rfl

section

variable (hk : Inv pools k) (h : Loaded k file size k')
include hk h

/-- A file that fits keeps the invariant. -/
lemma Inv.loaded (hko : Room pools.koPool k.koPoolPointer file.copied)
    (hbss : Room pools.bssPool k.bssPoolPtr size) : Inv pools k' := by
  simp only [Loaded, Kernel.room, Prod.mk.injEq] at h
  obtain ⟨hsyms, hkoPtr, hbssPtr, himages, hareas⟩ := h
  obtain ⟨h1, h2, himage⟩ := toNat_take pools.koPool_lt hk.koPtr.1 hko
  obtain ⟨h3, h4, harea⟩ := toNat_take pools.bssPool_lt hk.bssPtr.1 hbss
  refine ⟨fun a ha => ?_, fun a ha => ?_, ?_, ?_, ?_⟩
  · rw [himages, mem_append, mem_singleton] at ha
    obtain ha | rfl := ha
    · exact hk.images a ha
    · exact himage
  · rw [hareas, mem_append] at ha
    obtain ha | ha := ha
    · exact hk.areas a ha
    · grind
  · rw [hkoPtr]
    exact ⟨h1, h2⟩
  · rw [hbssPtr]
    exact ⟨h3, h4⟩
  · rw [hsyms]
    exact hk.tidy

/-- A file that does not fit is loaded all the same. -/
lemma Inv.not_good
    (hno : ¬(Room pools.koPool k.koPoolPointer file.copied ∧ Room pools.bssPool k.bssPoolPtr size)) :
    ¬Good pools k' := by
  simp only [Loaded, Kernel.room, Prod.mk.injEq] at h
  obtain ⟨-, -, -, himages, hareas⟩ := h
  intro hgood
  refine hno ⟨?_, ?_⟩
  · have himage := hgood.images ⟨k.koPoolPointer, file.copied⟩ (by rw [himages]; simp)
    exact himage.2
  · by_cases hpos : size > 0
    · have harea := hgood.areas ⟨k.bssPoolPtr, size⟩ (by rw [hareas, if_pos hpos]; simp)
      exact harea.2
    · have hzero : size = 0 := by simpa using hpos
      have hptr := hk.bssPtr.2
      rw [hzero, Room]
      simpa using hptr

end

lemma Inv.bssPoolPtr_ne_zero (hk : Inv pools k) : k.bssPoolPtr ≠ 0 := fun h => by
  have hpos := pools.bssPool_pos
  have hptr := hk.bssPtr.1
  rw [h] at hptr
  simp at hptr
  omega

variable {e : Event}

/-- A step that returns keeps the invariant, if a file that it loads fits. -/
lemma step_inv (hk : Inv pools k) (he : Fits pools fuel k e) (h : step fuel k e = .ok k') : Inv pools k' := by
  have hset : ∀ {name f}, name ∈ allNames → Inv pools { k with syms := modTouchSymbol k.syms name f 0 } :=
    fun hname => ⟨hk.images, hk.areas, hk.koPtr, hk.bssPtr, hk.tidy.setSym hname allNames_length _ _⟩
  have hclear : ∀ name, Inv pools { k with syms := modDisableSymbol k.syms name } :=
    fun name => ⟨hk.images, hk.areas, hk.koPtr, hk.bssPtr, hk.tidy.modDisableSymbol⟩
  cases e with
  | initModule name copied file u =>
    rcases initModule_cases hk.bssPoolPtr_ne_zero h with
      ⟨hroom, -⟩ | ⟨hloaded, hcopied, hread, k1, info, himage, hinfo, hloads⟩
    · exact hk.of_room hroom
    · obtain ⟨hko, hbss⟩ := he hloaded hcopied hread
      exact hk.loaded hloads hko (hbss k1 info himage hinfo)
  | cleanupModule name copied => exact hk.of_room (cleanupModule_room h)
  | registerAdd f =>
    cases h
    exact hset (.head _)
  | unregisterAdd | unregisterMul =>
    cases h
    exact hclear _
  | registerMul f =>
    cases h
    exact hset (.tail _ (.head _))

/-- A step that returns although a file does not fit leaves something outside of its array. -/
lemma step_not_good (hk : Inv pools k) (he : ¬Fits pools fuel k e)
    (h : step fuel k e = .ok k') : ¬Good pools k' := by
  cases e with
  | initModule name copied file u =>
    rcases initModule_cases hk.bssPoolPtr_ne_zero h with
      ⟨-, hnone⟩ | ⟨-, -, -, k1, info, himage, hinfo, hloads⟩
    · exact absurd (fun hloaded hcopied hread => absurd ⟨hloaded, hcopied, hread⟩ hnone) he
    · refine hk.not_good hloads fun hroom => he fun _ _ _ => ⟨hroom.1, fun k2 info' himage' hinfo' => ?_⟩
      grind
  | _ => exact absurd trivial he

/-- Through every history of calls that return, images, uninitialised data, symbols and names lie inside
their arrays exactly as long as every file that is loaded fits into what is left of the pools. -/
theorem pools_iff (pools : Pools) (fuel : ℕ) (mem : Mem) (addr : Chars → Addr) (es : List Event)
    (hreturns : AllSafe (step fuel) (Returns fuel) (modInit pools mem addr) es) :
    CorrectUpTo (step fuel) (Good pools) (fun _ => False) (modInit pools mem addr) es ↔
      AllSafe (step fuel) (Fits pools fuel) (modInit pools mem addr) es := by
  refine correctUpTo_iff_allSafe_of_legal (Inv pools) (fun _ hk => hk.good) (fun k e hk hret he => ?_)
    (fun k e hk hret he => ?_) (inv_modInit mem addr) es hreturns
  · obtain ⟨k', hk'⟩ := hret
    rw [hk']
    exact step_inv hk he hk'
  · obtain ⟨k', hk'⟩ := hret
    rw [hk']
    exact step_not_good hk he hk'

/-! ### Object files without sections -/

/-- The bytes of a file header that passes `elf_head_check` and tells of no sections. -/
def plainData : ℕ → BitVec 8
  | 0 => 0x7f
  | 1 => 0x45
  | 2 => 0x4c
  | 3 => 0x46
  | 4 => 0x02
  | 16 => 0x01
  | 18 => 0x3e
  | _ => 0

/-- A file with that header, of some size. -/
def plain (size : BitVec 64) : File := ⟨3, size, plainData, size, BitVec.le_refl _⟩

/-- Two pools. -/
def somePools : Pools :=
  ⟨0x100000, 0x300000, by decide, by decide, by decide, by decide⟩

/-- The kernel as it starts, with all memory mapped. -/
def startKernel : Kernel := modInit somePools (fun _ => some 0) fun _ => 0

/-- A record of zeros. -/
def zeroUninit : Uninit := ⟨some ⟨0, 0, 0, 0, 0, 0⟩, 0, 0⟩

/-- Memory after such a file has been read. -/
def plainMem (size : BitVec 64) : Mem := fun x =>
  if x - 0x100000 < size then some (plainData (x - 0x100000).toNat) else some 0

lemma readImage_plain (size : BitVec 64) : readImage startKernel (plain size) =
    .ok { startKernel with
      mem := plainMem size
      koPoolPointer := startKernel.koPoolPointer + size
      images := [⟨startKernel.koPoolPointer, size⟩] } := by
  have hfill : fill startKernel.mem startKernel.koPoolPointer size plainData = .ok (plainMem size) :=
    if_pos fun _ _ => rfl
  rw [readImage, show (plain size).copied = size from rfl, show (plain size).data = plainData from rfl, hfill]
  rfl

/-- What `elf_mod_load` is called on then. -/
def plainParse (size : BitVec 64) : Parse :=
  Kernel.parse { startKernel with mem := plainMem size } ⟨0, 0, 0, 0, 0, 0⟩ zeroUninit

/-- The system call that loads such a file. -/
def loadPlain (size : BitVec 64) : Event := .initModule ModManager.modAdd true (plain size) zeroUninit

/-- A file without sections is loaded if it is linked. -/
lemma returns_loadPlain {size : BitVec 64} {r : Parse × Bool} (hsize : ¬(size = 0 ∨ size > 1#64 <<< 20))
    (hload : elfModLoad 2 0x100000 0 (plainParse size) = .ok r) : Returns 2 startKernel (loadPlain size) := by
  have hread : unreadable startKernel (plain size) = none := by
    have hfd : ¬(plain size).fd < 0 := (by decide : ¬(3 : ℤ) < 0)
    have hsize' : ¬((plain size).stSize = 0 ∨ (plain size).stSize > 1#64 <<< 20) := hsize
    rw [unreadable, if_neg hfd, if_neg hsize', if_neg (by decide)]
  have hfresh : moduleLoaded charExt startKernel.tables ModManager.modAdd = false := by decide +kernel
  obtain ⟨out, hout⟩ := loadModule_returns ModManager.modAdd hread (readImage_plain size) rfl hload
  refine ⟨out.kern, ?_⟩
  rw [loadPlain, step, doInitModule, hfresh, if_neg Bool.false_ne_true, if_pos rfl, hout]
  rfl

/-- A small file fits. -/
theorem pools_iff_plain : CorrectUpTo (step 2) (Good somePools) (fun _ => False) startKernel
    [loadPlain 64, .registerAdd 0x100010] := by
  have hload : (elfModLoad 2 0x100000 0 (plainParse 64)).toOption.map (·.2) = some true := by
    decide +kernel
  obtain ⟨r, hr, -⟩ := exists_ok_of_map hload
  obtain ⟨k', hk'⟩ := returns_loadPlain (by decide) hr
  have hreturns : AllSafe (step 2) (Returns 2) startKernel [loadPlain 64, .registerAdd 0x100010] := by
    refine ⟨⟨k', hk'⟩, ?_⟩
    rw [hk']
    exact ⟨⟨_, rfl⟩, trivial⟩
  refine (pools_iff somePools 2 _ _ _ hreturns).mpr ⟨fun _ _ _ => ⟨by decide +kernel, ?_⟩, ?_⟩
  · intro k1 info himage hinfo
    cases (readImage_plain 64).symm.trans himage
    cases hinfo
    have hsize : bssSize 2 0x100000 (plainParse 64) = 0 := by decide +kernel
    have hroom : Room somePools.bssPool startKernel.bssPoolPtr (bssSize 2 0x100000 (plainParse 64)) := by
      rw [hsize]
      decide +kernel
    exact hroom
  · grind [AllSafe, Fits]

/-- A file that is larger than the pool passes the check of its size and is loaded. -/
theorem large_image_outside : ∃ k',
    step 2 startKernel (loadPlain 1000001) = .ok k' ∧ ¬Good somePools k' := by
  have hload : (elfModLoad 2 0x100000 0 (plainParse 1000001)).toOption.map (·.2) = some true := by
    decide +kernel
  obtain ⟨r, hr, -⟩ := exists_ok_of_map hload
  obtain ⟨k', hk'⟩ := returns_loadPlain (by decide) hr
  refine ⟨k', hk', step_not_good (inv_modInit _ _) (fun hfits => ?_) hk'⟩
  have hroom : 0x100000 + 1000001 ≤ 0x100000 + poolSize := (hfits (by decide +kernel) rfl rfl).1
  exact absurd hroom (by decide)

end UcoreKernel.ModLoader
