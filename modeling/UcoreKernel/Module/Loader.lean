import UcoreKernel.Module.Elf

/-!
Linking a kernel module: `elf_mod_parse` and `elf_mod_load` of `module/mod_loader.c`.

The first pass goes through the sections: it finds `init_module` and `cleanup_module` among the symbols,
and gives the uninitialised sections and the common symbols their places in one area, which is then
taken from `bss_pool`. The second pass fills in the relocations.

Only an alignment of more than a page makes `elf_mod_parse` fail. A symbol that the kernel does not
export, a relocation of another type, a symbol in a special section and a section of relocations without
addends are reported by a message, and the loader goes on.
-/

namespace UcoreKernel.ModLoader

open UcoreKernel.Except (Ensures)

/-- A piece of memory. -/
structure Area where
  base : Addr
  size : Addr
deriving DecidableEq

/-- What `elf_mod_parse` works on: memory, the symbols, the pool for uninitialised data with the areas
that were taken from it, its results (`none` where a pointer was not set), its variables, and the
messages that it printed. -/
structure Parse where
  mem : Mem
  syms : Symbols
  bssPoolPtr : Addr
  areas : List Area
  commonData : Addr
  commonSize : BitVec 32
  modLoadPtr : Option Addr
  modUnloadPtr : Option Addr
  curCommonAlloc : BitVec 64
  curCommonAlign : BitVec 64
  relocAddr : Addr
  log : List Message

/-- `MOD_INIT_MODULE` -/
def modInitModule : Chars := chars "init_module"

/-- `MOD_CLEANUP_MODULE` -/
def modCleanupModule : Chars := chars "cleanup_module"

def pgSize : BitVec 64 := 4096

section Model

variable (fuel : ℕ) (elf : Addr) (exportSymbol : Bool)

/-! ### The first pass -/

/-- Where a symbol that is defined in a section lies. -/
def definedAt (m : Mem) (symtab : Addr) (shndx : BitVec 16) : Except Stop Addr := do
  let off ← getSectionOffset m elf (shndx.setWidth 32)
  let addr ← symAddress m symtab
  return off + addr + elf

/-- The two functions that the kernel calls are looked for by their names. -/
def entryPoint (p : Parse) (symtab : Addr) (shndx : BitVec 16) (str : Str) : Except Stop Parse := do
  if ← strEq p.mem str 0 modInitModule then
    let addr ← definedAt elf p.mem symtab shndx
    return { p with modLoadPtr := some addr }
  else
    if ← strEq p.mem str 0 modCleanupModule then
      let addr ← definedAt elf p.mem symtab shndx
      return { p with modUnloadPtr := some addr }
    else return p

/-- A global symbol is exported. -/
def exportGlobal (p : Parse) (symtab : Addr) (shndx : BitVec 16) (str : Str) : Except Stop Parse := do
  let addr ← definedAt elf p.mem symtab shndx
  let name ← readStr p.mem str fuel
  return { p with syms := modTouchSymbol p.syms name addr 0 }

/-- A weak symbol is exported. -/
def exportWeak (p : Parse) (symtab : Addr) (str : Str) : Except Stop Parse := do
  let addr ← symAddress p.mem symtab
  let name ← readStr p.mem str fuel
  return { p with syms := elfModCreateSymbol p.syms name (addr + elf) 0 }

/-- A symbol that is defined in a section, by its binding. -/
def definedSymbol (p : Parse) (symtab : Addr) (shndx : BitVec 16) : Except Stop Parse := do
  let str ← getSymbolString p.mem elf (← symName p.mem symtab)
  let info ← symInfo p.mem symtab
  if info >>> 4 = stbGlobal ∨ info >>> 4 = stbLocal then
    let p ← entryPoint elf p symtab shndx str
    if info >>> 4 = stbGlobal ∧ exportSymbol then exportGlobal fuel elf p symtab shndx str
    else return p
  else if info >>> 4 = stbWeak ∧ exportSymbol then exportWeak fuel elf p symtab str
  else return p

/-- One entry of a symbol table. A common symbol gets the next place in the area. -/
def symbolEntry (p : Parse) (symtab : Addr) : Except Stop Parse := do
  let shndx ← symShndx p.mem symtab
  if shndx ≠ shnUndef ∧ shndx < shnLoreserve then definedSymbol fuel elf exportSymbol p symtab shndx
  else if shndx = shnCommon then
    let mem ← write p.mem (symAddressField symtab) p.curCommonAlloc
    let size ← symSize mem symtab
    return { p with mem, curCommonAlloc := p.curCommonAlloc + size }
  else return p

/-- The entries of one table, from the offset `x` on. -/
def symbolTable (p : Parse) (sh : Addr) : Except Stop Parse :=
  loop .running (fun (x, p) => do
    let size ← shSize p.mem sh
    if (x : BitVec 32).setWidth 64 < size then
      let p ← symbolEntry fuel elf exportSymbol p (elf + (← shOffset p.mem sh) + x.setWidth 64)
      let entsize ← shEntsize p.mem sh
      return .next ((x.setWidth 64 + entsize).setWidth 32, p)
    else return .done p) fuel (0#32, p)

/-- `bsf`: the lowest bit. -/
def bsf (n : BitVec 64) : BitVec 32 := if n = 0 then -1 else n.ctz.setWidth 32

/-- `bsr`: the highest bit. -/
def bsr (n : BitVec 64) : BitVec 32 := if n = 0 then -1 else 63 - n.clz.setWidth 32

/-- The condition under which a section is refused, `bsf(align != bsr(align))`. -/
def badAlign (align : BitVec 64) : Bool :=
  bsf (if align ≠ (bsr align).signExtend 64 then 1 else 0) ≠ 0

/-- An uninitialised section: it is given its place behind the ones before it. The result says whether
it is refused. -/
def bssSection (p : Parse) (sh : Addr) : Except Stop (Parse × Bool) := do
  let align ← shAddralign p.mem sh
  if badAlign align then return ({ p with log := p.log ++ [.badAlign] }, true)
  let curCommonAlign := if align > p.curCommonAlign then align else p.curCommonAlign
  let start := ((p.curCommonAlloc - 1) ||| (align - 1)) + 1
  let mem ← write p.mem (shAddrField sh) start
  let size ← shSize mem sh
  return ({ p with mem, curCommonAlign, curCommonAlloc := start + size }, false)

/-- One section, in the first pass. -/
def sectionEntry (p : Parse) (sh : Addr) : Except Stop (Parse × Bool) := do
  let type ← shType p.mem sh
  if type = shTypeSymtab then
    let p ← symbolTable fuel elf exportSymbol p sh
    return (p, false)
  else if type = shTypeNobits then bssSection p sh
  else return (p, false)

/-- The first pass; the result says whether a section was refused. -/
def firstPass (p : Parse) : Except Stop (Parse × Bool) :=
  loop .running (fun (i, p) => do
    let shnum ← eShnum p.mem elf
    if (i : BitVec 32) < shnum.setWidth 32 then
      let (p, bad) ← sectionEntry fuel elf exportSymbol p (← secthdr p.mem elf i)
      return if bad then .done (p, true) else .next (i + 1, p)
    else return .done (p, false)) fuel (0#32, p)

/-! ### The second pass -/

/-- What a symbol stands for. `commonSpace` is the area for uninitialised data. -/
def resolve (name : Chars) (commonSpace : Addr) (p : Parse) (symtab : Addr) : Except Stop Parse := do
  let shndx ← symShndx p.mem symtab
  if shndx = shnUndef then
    let symName ← readStr p.mem (← getSymbolString p.mem elf (← symName p.mem symtab)) fuel
    let idx := (findExportSym p.syms symName false).2
    if idx = noSym then
      if symName = name then return { p with relocAddr := elf }
      else return { p with relocAddr := 0, log := p.log ++ [.unresolved symName] }
    else return { p with relocAddr := p.syms.ptr idx }
  else if shndx < shnLoreserve then
    let sh ← secthdrInt p.mem elf shndx
    let base := if (← shType p.mem sh) = shTypeNobits then commonSpace else elf
    let off ← getSectionOffset p.mem elf (shndx.setWidth 32)
    let addr ← symAddress p.mem symtab
    return { p with relocAddr := base + off + addr }
  else if shndx = shnCommon then
    let addr ← symAddress p.mem symtab
    return { p with relocAddr := commonSpace + addr }
  else return { p with log := p.log ++ [.unhandledShndx] }

/-- The value is stored as the type of the relocation says. -/
def applyReloc (p : Parse) (memAddr : Addr) (type val : BitVec 64) : Except Stop Parse := do
  if type = 0 then return p
  else if type = 1 then return { p with mem := ← write p.mem memAddr val }
  else if type = 10 ∨ type = 11 then return { p with mem := ← write p.mem memAddr (val.setWidth 32) }
  else if type = 2 then return { p with mem := ← write p.mem memAddr ((val - memAddr).setWidth 32) }
  else return { p with log := p.log ++ [.unsupported type] }

/-- One relocation. -/
def relocate (name : Chars) (commonSpace : Addr) (p : Parse) (sh reloc : Addr) : Except Stop Parse := do
  let info ← rlInfo p.mem reloc
  let symtab ← fillSymbolStruct p.mem elf ((info >>> 32).setWidth 32)
  let offset ← rlOffset p.mem reloc
  let off ← getSectionOffset p.mem elf (← shInfo p.mem sh)
  let p ← resolve fuel elf name commonSpace p symtab
  let addend ← rlAddend p.mem reloc
  applyReloc p (elf + offset + off) (info &&& 0xffffffff) (p.relocAddr + addend)

/-- The relocations of one section, from the offset `x` on. -/
def relocSection (name : Chars) (commonSpace : Addr) (p : Parse) (sh : Addr) : Except Stop Parse :=
  loop .running (fun (x, p) => do
    let size ← shSize p.mem sh
    if (x : BitVec 32).setWidth 64 < size then
      let p ← relocate fuel elf name commonSpace p sh (elf + (← shOffset p.mem sh) + x.setWidth 64)
      let entsize ← shEntsize p.mem sh
      return .next ((x.setWidth 64 + entsize).setWidth 32, p)
    else return .done p) fuel (0#32, p)

/-- The second pass. -/
def secondPass (name : Chars) (commonSpace : Addr) (p : Parse) : Except Stop Parse :=
  loop .running (fun (i, p) => do
    let shnum ← eShnum p.mem elf
    if (i : BitVec 32) < shnum.setWidth 32 then
      let sh ← secthdr p.mem elf i
      let type ← shType p.mem sh
      if type = shTypeRela then
        let p ← relocSection fuel elf name commonSpace p sh
        return .next (i + 1, p)
      else if type = shTypeRel then return .next (i + 1, { p with log := p.log ++ [.relNotImplemented] })
      else return .next (i + 1, p)
    else return .done p) fuel (0#32, p)

/-! ### The whole -/

/-- The area for uninitialised data is taken from the pool and cleared. -/
def takeCommon (p : Parse) : Except Stop Parse := do
  let commonSpace := p.bssPoolPtr
  let mem ← fill p.mem commonSpace p.curCommonAlloc fun _ => 0
  return { p with
    mem
    bssPoolPtr := p.bssPoolPtr + p.curCommonAlloc
    areas := p.areas ++ [⟨commonSpace, p.curCommonAlloc⟩]
    log := p.log ++ [.memoryPointer commonSpace]
    commonData := commonSpace
    commonSize := p.curCommonAlloc.setWidth 32 }

/-- `elf_mod_parse` from the first pass on, with whether it succeeds. `commonSpace` is what its variable
of that name holds if there is no uninitialised data. -/
def linkParse (name : Chars) (commonSpace : Addr) (p : Parse) : Except Stop (Parse × Bool) := do
  if p.curCommonAlign > pgSize then return ({ p with log := p.log ++ [.alignFailed] }, false)
  else if p.curCommonAlloc > 0 then
    if p.bssPoolPtr = 0 then return ({ p with log := p.log ++ [.noBss] }, false)
    else
      let r ← takeCommon p
      let r ← secondPass fuel elf name p.bssPoolPtr r
      return (r, true)
  else
    let r ← secondPass fuel elf name commonSpace { p with commonData := 0, commonSize := 0 }
    return (r, true)

/-- `elf_mod_parse`, with whether it succeeds. -/
def elfModParse (name : Chars) (commonSpace : Addr) (p : Parse) : Except Stop (Parse × Bool) := do
  let (p, bad) ← firstPass fuel elf exportSymbol { p with curCommonAlloc := 0, curCommonAlign := 1 }
  if bad then return (p, false) else linkParse fuel elf name commonSpace p

/-- `elf_mod_load`, with whether it succeeds. -/
def elfModLoad (commonSpace : Addr) (p : Parse) : Except Stop (Parse × Bool) := do
  match ← elfHeadCheck p.mem elf with
  | some msg => return ({ p with log := p.log ++ [msg] }, false)
  | none => elfModParse fuel elf false [] commonSpace p

end Model

/-! ### The pool for uninitialised data -/

/-- What a file without exports leaves as it is, but for the area that it takes. -/
def Parse.pools (p : Parse) : Symbols × Addr × List Area := (p.syms, p.bssPoolPtr, p.areas)

section Pools

variable (fuel : ℕ) (elf : Addr)

/-- A computation from which the pools come out as they were. -/
def Keeps (p : Parse) (x : Except Stop Parse) : Prop :=
  Ensures (fun _ => True) x fun p' => p'.pools = p.pools

/-- The same for a computation with a result of its own. -/
def KeepsWith {A : Type} (p : Parse) (x : Except Stop (Parse × A)) : Prop :=
  Ensures (fun _ => True) x fun r => r.1.pools = p.pools

section

variable (p : Parse)

lemma entryPoint_keeps (symtab : Addr) (shndx : BitVec 16) (str : Str) :
    Keeps p (entryPoint elf p symtab shndx str) := by
  refine .bind_any fun isInit => .ite (fun _ => ?_) fun _ => ?_
  · exact .bind_any fun _ => rfl
  · exact .bind_any fun isCleanup => .ite (fun _ => .bind_any fun _ => rfl) fun _ => rfl

lemma symbolEntry_keeps (symtab : Addr) : Keeps p (symbolEntry fuel elf false p symtab) := by
  refine .bind_any fun shndx => .ite (fun _ => ?_) fun _ => .ite (fun _ => ?_) fun _ => rfl
  · refine .bind_any fun index => .bind_any fun str => .bind_any fun info =>
      .ite (fun _ => ?_) fun _ => .ite (fun h => absurd h.2 Bool.false_ne_true) fun _ => rfl
    refine (entryPoint_keeps elf p symtab shndx str).bind fun p' hp' => ?_
    exact .ite (fun h => absurd h.2 Bool.false_ne_true) fun _ => hp'
  · exact .bind_any fun _ => .bind_any fun _ => rfl

lemma symbolTable_keeps (sh : Addr) : Keeps p (symbolTable fuel elf false p sh) := by
  refine loop_ensures (fun xp => xp.2.pools = p.pools) trivial (fun (x, q) hq => ?_) fuel rfl
  refine .bind_any fun size => .ite (fun _ => ?_) fun _ => hq
  refine .bind_any fun off => (symbolEntry_keeps fuel elf q _).bind fun q' hq' => ?_
  exact .bind_any fun _ => hq'.trans hq

lemma sectionEntry_keeps (sh : Addr) : KeepsWith p (sectionEntry fuel elf false p sh) := by
  refine .bind_any fun type => .ite (fun _ => ?_) fun _ => .ite (fun _ => ?_) fun _ => rfl
  · exact (symbolTable_keeps fuel elf p sh).bind fun _ h => h
  · refine .bind_any fun align => .ite (fun _ => rfl) fun _ => ?_
    exact .bind_any fun mem => .bind_any fun size => rfl

lemma firstPass_keeps : KeepsWith p (firstPass fuel elf false p) := by
  refine loop_ensures (fun ip => ip.2.pools = p.pools) trivial (fun (i, q) hq => ?_) fuel rfl
  refine .bind_any fun shnum => .ite (fun _ => ?_) fun _ => hq
  refine .bind_any fun sh => (sectionEntry_keeps fuel elf q sh).bind fun (q', bad) hq' => ?_
  cases bad with
  | true | false => exact hq'.trans hq

end

variable (name : Chars) (commonSpace : Addr)

section

variable (p : Parse)

lemma resolve_keeps (symtab : Addr) : Keeps p (resolve fuel elf name commonSpace p symtab) := by
  refine .bind_any fun shndx => .ite (fun _ => ?_) fun _ => .ite (fun _ => ?_) fun _ =>
    .ite (fun _ => .bind_any fun _ => rfl) fun _ => rfl
  · exact .bind_any fun index => .bind_any fun str => .bind_any fun symName =>
      .ite (fun _ => .ite (fun _ => rfl) fun _ => rfl) fun _ => rfl
  · exact .bind_any fun sh => .bind_any fun type => .bind_any fun off => .bind_any fun addr => rfl

lemma applyReloc_keeps (memAddr : Addr) (type val : BitVec 64) : Keeps p (applyReloc p memAddr type val) := by
  refine .ite (fun _ => rfl) fun _ => .ite (fun _ => .bind_any fun _ => rfl) fun _ =>
    .ite (fun _ => .bind_any fun _ => rfl) fun _ => .ite (fun _ => .bind_any fun _ => rfl) fun _ => rfl

lemma relocSection_keeps (sh : Addr) : Keeps p (relocSection fuel elf name commonSpace p sh) := by
  refine loop_ensures (fun xp => xp.2.pools = p.pools) trivial (fun (x, q) hq => ?_) fuel rfl
  refine .bind_any fun size => .ite (fun _ => ?_) fun _ => hq
  refine .bind_any fun off => ?_
  refine Ensures.bind (P := fun q' : Parse => q'.pools = q.pools) ?_ fun q' hq' =>
    .bind_any fun _ => hq'.trans hq
  refine .bind_any fun info => .bind_any fun symtab => .bind_any fun offset => .bind_any fun index =>
    .bind_any fun off => (resolve_keeps fuel elf name commonSpace q symtab).bind fun q' hq' => ?_
  exact .bind_any fun addend => (applyReloc_keeps q' _ _ _).mono fun _ h => h.trans hq'

lemma secondPass_keeps : Keeps p (secondPass fuel elf name commonSpace p) := by
  refine loop_ensures (fun ip => ip.2.pools = p.pools) trivial (fun (i, q) hq => ?_) fuel rfl
  refine .bind_any fun shnum => .ite (fun _ => ?_) fun _ => hq
  refine .bind_any fun sh => .bind_any fun type => .ite (fun _ => ?_) fun _ =>
    .ite (fun _ => hq) fun _ => hq
  exact (relocSection_keeps fuel elf name commonSpace q sh).bind fun _ h => h.trans hq

/-- How much the first pass asks for, unless the alignment is refused. -/
def Parse.demand (p : Parse) : BitVec 64 := if p.curCommonAlign > pgSize then 0 else p.curCommonAlloc

/-- How much uninitialised data a file asks for, if nothing is wrong with it before. -/
def bssSize (p : Parse) : BitVec 64 :=
  match elfHeadCheck p.mem elf with
  | .ok none =>
    match firstPass fuel elf false { p with curCommonAlloc := 0, curCommonAlign := 1 } with
    | .ok (p, false) => p.demand
    | _ => 0
  | _ => 0

/-- The pools after an area has been taken. -/
def Parse.taking (p : Parse) (size : BitVec 64) : Symbols × Addr × List Area :=
  (p.syms, p.bssPoolPtr + size, p.areas ++ if size > 0 then [⟨p.bssPoolPtr, size⟩] else [])

lemma Parse.taking_zero : p.taking 0 = p.pools := by simp [Parse.taking, Parse.pools]

end

lemma Parse.taking_congr {p q : Parse} (h : q.pools = p.pools) (size : BitVec 64) :
    q.taking size = p.taking size := by grind [Parse.pools, Parse.taking]

lemma linkParse_pools (p : Parse) (hptr : p.bssPoolPtr ≠ 0) :
    Ensures (fun _ => True) (linkParse fuel elf name commonSpace p) fun r => r.1.pools = p.taking p.demand := by
  refine .ite (fun h => ?_) fun h => .ite (fun hpos => .ite (absurd · hptr) fun _ => ?_) fun hpos => ?_
  · rw [Parse.demand, if_pos h, Parse.taking_zero]
    rfl
  · have htake : Ensures (fun _ => True) (takeCommon p) fun r =>
        r.pools = p.taking p.curCommonAlloc := by
      rw [Parse.taking, if_pos hpos]
      exact .bind_any fun _ => rfl
    rw [Parse.demand, if_neg h]
    refine htake.bind fun q hq => ?_
    exact (secondPass_keeps fuel elf name p.bssPoolPtr q).bind fun r hr => hr.trans hq
  · have hzero : p.demand = 0 := by
      rw [Parse.demand, if_neg h]
      simpa using hpos
    rw [hzero, Parse.taking_zero]
    exact (secondPass_keeps fuel elf name commonSpace _).bind fun r hr => hr

/-- `elf_mod_load` takes the area that the file asks for, and exports nothing. -/
lemma elfModLoad_pools (p : Parse) (hptr : p.bssPoolPtr ≠ 0) :
    Ensures (fun _ => True) (elfModLoad fuel elf commonSpace p) fun r =>
      r.1.pools = p.taking (bssSize fuel elf p) := by
  unfold elfModLoad bssSize
  cases hhead : elfHeadCheck p.mem elf with
  | error e => trivial
  | ok msg =>
    cases msg with
    | some msg => exact p.taking_zero.symm
    | none =>
      have hkeep := firstPass_keeps fuel elf { p with curCommonAlloc := 0, curCommonAlign := 1 }
      rw [ok_bind]
      unfold elfModParse
      cases hpass : firstPass fuel elf false { p with curCommonAlloc := 0, curCommonAlign := 1 } with
      | error e => trivial
      | ok r =>
        obtain ⟨q, bad⟩ := r
        rw [hpass] at hkeep
        have hq : q.pools = p.pools := hkeep
        cases bad with
        | true => exact hq.trans p.taking_zero.symm
        | false =>
          have hqptr : q.bssPoolPtr ≠ 0 := fun h => hptr ((congrArg (·.2.1) hq).symm.trans h)
          exact (linkParse_pools fuel elf [] commonSpace q hqptr).mono fun r hr =>
            hr.trans (Parse.taking_congr hq _)

end Pools

end UcoreKernel.ModLoader
