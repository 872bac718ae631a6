import UcoreKernel.Module.Loader
import UcoreKernel.Module.ModManager

/-!
Loading and unloading kernel modules: `module/mod.c`.

`load_module` enters the name into the table of modules before it opens the file, and it calls the
module's function without looking at the result of `elf_mod_load`. A file that cannot be read leaves
its name in the table; a file that cannot be linked is entered and called, at an address that may never
have been set.
-/

namespace UcoreKernel.ModLoader

open ModManager (Name Tables addModule delModule getModule moduleLoaded)

/-- `struct elf_mod_info_s` -/
structure ModInfo where
  image : Addr
  imageSize : BitVec 32
  commonPtr : Addr
  commonSize : BitVec 32
  loadPtr : Addr
  unloadPtr : Addr
deriving DecidableEq

/-- The state: memory, the exported symbols, the two pools with the pieces that were taken from them,
the table of modules, and the records that it points to. -/
structure Kernel where
  mem : Mem
  syms : Symbols
  koPoolPointer : Addr
  bssPoolPtr : Addr
  images : List Area
  areas : List Area
  tables : Tables ℕ
  infos : List ModInfo

/-- What the file system says about the file: the descriptor or an error, its size, its bytes, and how
many of them are read. -/
structure File where
  fd : ℤ
  stSize : BitVec 64
  data : ℕ → BitVec 8
  copied : BitVec 64
  copied_le : copied ≤ stSize

/-- What is in memory that was not initialised: the record from `kmalloc`, if there is one, and two
variables of `elf_mod_parse`. -/
structure Uninit where
  info : Option ModInfo
  commonSpace : Addr
  relocAddr : Addr

/-- How a call ends: the state, the result, the function of the module that was called, and what was
printed. -/
structure Outcome where
  kern : Kernel
  ret : ℤ
  called : Option Addr
  log : List Message

/-- A `char` of this machine has a sign. -/
def charExt : BitVec 8 → BitVec 32 := BitVec.signExtend 32

def eInval : ℤ := 3

/-- Why `load_mod_file` does not come to read the file. -/
def unreadable (k : Kernel) (file : File) : Option Message :=
  if file.fd < 0 then some .cannotFind
  else if file.stSize = 0 ∨ file.stSize > 1#64 <<< 20 then some (.wrongSize file.stSize)
  else if k.koPoolPointer = 0 then some .notEnoughMemory
  else none

/-- The file is read to where the pool has come to, whatever its size. -/
def readImage (k : Kernel) (file : File) : Except Stop Kernel := do
  let mem ← fill k.mem k.koPoolPointer file.copied file.data
  return { k with
    mem
    koPoolPointer := k.koPoolPointer + file.copied
    images := k.images ++ [⟨k.koPoolPointer, file.copied⟩] }

/-- `load_mod_file`: the state with the address and the size, or the message with which it fails. -/
def loadModFile (k : Kernel) (file : File) : Except Stop (Except Message (Kernel × Addr × BitVec 32)) :=
  match unreadable k file with
  | some msg => .ok (.error msg)
  | none => do
      let k' ← readImage k file
      return .ok (k', k.koPoolPointer, file.stSize.setWidth 32)

/-- What `elf_mod_load` is called on. -/
def Kernel.parse (k : Kernel) (info : ModInfo) (u : Uninit) : Parse where
  mem := k.mem
  syms := k.syms
  bssPoolPtr := k.bssPoolPtr
  areas := k.areas
  commonData := info.commonPtr
  commonSize := info.commonSize
  modLoadPtr := none
  modUnloadPtr := none
  curCommonAlloc := 0
  curCommonAlign := 1
  relocAddr := u.relocAddr
  log := []

/-- The record after `elf_mod_load`. -/
def linkedInfo (info : ModInfo) (image : Addr) (imageSize : BitVec 32) (p : Parse) : ModInfo :=
  ⟨image, imageSize, p.commonData, p.commonSize, p.modLoadPtr.getD info.loadPtr,
    p.modUnloadPtr.getD info.unloadPtr⟩

/-- The image is linked, and its function is called. -/
def linkImage (fuel : ℕ) (k : Kernel) (image : Addr) (imageSize : BitVec 32) (info : ModInfo)
    (u : Uninit) : Except Stop Outcome := do
  let (p, _) ← elfModLoad fuel image u.commonSpace (k.parse info u)
  let info := linkedInfo info image imageSize p
  let k := { k with
    mem := p.mem
    syms := p.syms
    bssPoolPtr := p.bssPoolPtr
    areas := p.areas
    infos := k.infos ++ [info] }
  return ⟨k, 0, some info.loadPtr, p.log⟩

/-- `load_module`. The record has the number that is next. -/
def loadModule (fuel : ℕ) (k : Kernel) (name : Name) (file : File) (u : Uninit) : Except Stop Outcome := do
  let k := { k with tables := (addModule charExt k.tables name (u.info.map fun _ => k.infos.length)).1 }
  match ← loadModFile k file with
  | .error msg => return ⟨{ k with infos := k.infos ++ u.info.toList }, -1, none, [msg]⟩
  | .ok (k, image, imageSize) =>
    match u.info with
    | none => .error .fault
    | some info => linkImage fuel k image imageSize info u

/-- `unload_module` -/
def unloadModule (k : Kernel) (name : Name) : Except Stop Outcome :=
  match getModule charExt k.tables name with
  | none => .ok ⟨k, -1, none, [.infoNotFound]⟩
  | some i =>
    match k.infos[i]? with
    | none => .error .fault
    | some info =>
      let (tables, ret) := delModule charExt k.tables name
      .ok ⟨{ k with tables }, ret.elim (-1) fun i => (i : ℤ), some info.unloadPtr, []⟩

/-- `do_init_module`; `copied` says whether the name could be copied from the user. -/
def doInitModule (fuel : ℕ) (k : Kernel) (name : Name) (copied : Bool) (file : File) (u : Uninit) :
    Except Stop Outcome :=
  if moduleLoaded charExt k.tables name then .ok ⟨k, -1, none, []⟩
  else if copied then loadModule fuel k name file u
  else .ok ⟨k, -eInval, none, []⟩

/-- `do_cleanup_module` -/
def doCleanupModule (k : Kernel) (name : Name) (copied : Bool) : Except Stop Outcome :=
  if moduleLoaded charExt k.tables name = false then .ok ⟨k, -1, none, []⟩
  else if copied then unloadModule k name
  else .ok ⟨k, -eInval, none, []⟩

/-! ### All or nothing -/

/-- Every check passed: the file was found, is of a size that is allowed and was read whole, the header
and the sections are good, no relocation was reported as failed, and the module has the function that
is to be called. -/
structure Passed (fuel : ℕ) (k : Kernel) (file : File) (u : Uninit) : Prop where
  readable : unreadable k file = none
  whole : file.copied = file.stSize
  linked : ∃ k' info p, readImage k file = .ok k' ∧ u.info = some info ∧
    elfModLoad fuel k.koPoolPointer u.commonSpace (k'.parse info u) = .ok (p, true) ∧
    (∀ msg ∈ p.log, msg.isFailure = false) ∧ p.modLoadPtr.isSome

/-- A call that is all or nothing: either every check passed, or nothing was called, an error is
returned, and the same modules are loaded as before. -/
def AllOrNothing (fuel : ℕ) (k : Kernel) (file : File) (u : Uninit) (out : Outcome) : Prop :=
  Passed fuel k file u ∨ (out.called = none ∧ out.ret ≠ 0 ∧
    ∀ name, moduleLoaded charExt out.kern.tables name = moduleLoaded charExt k.tables name)

variable {fuel : ℕ} {k : Kernel} {name : Name} {file : File} {u : Uninit}

/-- The table of modules after `load_module` has entered the name. -/
def entered (k : Kernel) (name : Name) (u : Uninit) : Tables ℕ :=
  (addModule charExt k.tables name (u.info.map fun _ => k.infos.length)).1

/-- `load_module`, with the table entered last. -/
lemma loadModule_eq : loadModule fuel k name file u =
    match unreadable k file with
    | some msg => .ok ⟨{ k with tables := entered k name u, infos := k.infos ++ u.info.toList },
        -1, none, [msg]⟩
    | none => readImage k file >>= fun k' =>
      match u.info with
      | none => .error .fault
      | some info => linkImage fuel { k' with tables := entered k name u } k.koPoolPointer
          (file.stSize.setWidth 32) info u := by
  have hsame : unreadable { k with tables := entered k name u } file = unreadable k file := rfl
  have himage : readImage { k with tables := entered k name u } file =
      readImage k file >>= fun k' => .ok { k' with tables := entered k name u } := by
    rw [readImage, readImage]
    cases fill k.mem k.koPoolPointer file.copied file.data <;> rfl
  rw [loadModule]
  rw [← entered, loadModFile, hsame, himage]
  cases unreadable k file with
  | some msg => rfl
  | none => cases readImage k file <;> rfl

/-- A file that cannot be read: only the table is changed, as `add_module` does. -/
lemma loadModule_of_unreadable {msg : Message} (fuel : ℕ) (name : Name) (u : Uninit)
    (h : unreadable k file = some msg) :
    ∃ out, loadModule fuel k name file u = .ok out ∧ out.called = none ∧ out.ret = -1 ∧
      out.kern.tables = entered k name u := by
  rw [loadModule_eq, h]
  exact ⟨_, rfl, rfl, rfl, rfl⟩

/-- A file that can be read: it is linked, and whatever comes of that, a function is called. -/
lemma loadModule_of_readable {out : Outcome} (h : unreadable k file = none)
    (hout : loadModule fuel k name file u = .ok out) :
    ∃ k' info p ok, readImage k file = .ok k' ∧ u.info = some info ∧
      elfModLoad fuel k.koPoolPointer u.commonSpace (k'.parse info u) = .ok (p, ok) ∧
      out.called = some (p.modLoadPtr.getD info.loadPtr) ∧ out.ret = 0 ∧ out.kern.syms = p.syms ∧
      out.kern.koPoolPointer = k'.koPoolPointer ∧ out.kern.images = k'.images ∧
      out.kern.bssPoolPtr = p.bssPoolPtr ∧ out.kern.areas = p.areas := by
  rw [loadModule_eq, h] at hout
  obtain ⟨k', himage, hrest⟩ := bind_eq_ok_iff.mp hout
  cases hinfo : u.info with
  | none =>
    rw [hinfo] at hrest
    cases hrest
  | some info =>
    rw [hinfo] at hrest
    obtain ⟨⟨p, ok⟩, hload, hout⟩ := bind_eq_ok_iff.mp hrest
    cases hout
    exact ⟨k', info, p, ok, himage, rfl, hload, rfl, rfl, rfl, rfl, rfl, rfl, rfl⟩

/-- A file that is read and linked is loaded. -/
lemma loadModule_returns {k' : Kernel} {info : ModInfo} {r : Parse × Bool} (name : Name)
    (hread : unreadable k file = none) (himage : readImage k file = .ok k') (hinfo : u.info = some info)
    (hload : elfModLoad fuel k.koPoolPointer u.commonSpace (k'.parse info u) = .ok r) :
    ∃ out, loadModule fuel k name file u = .ok out := by
  have hload' : elfModLoad fuel k.koPoolPointer u.commonSpace
      (Kernel.parse { k' with tables := entered k name u } info u) = .ok r := hload
  rw [loadModule_eq, hread, himage, hinfo]
  simp only [ok_bind]
  rw [linkImage, hload']
  exact ⟨_, rfl⟩

/-- A file that is not there. -/
def missing : File := ⟨-2, 0, fun _ => 0, 0, by decide⟩

/-- A kernel without modules, all of whose memory is mapped. -/
def freshKernel : Kernel := ⟨fun _ => some 0, modLoaderInit, 1, 1, [], [], Tables.init, []⟩

end UcoreKernel.ModLoader
