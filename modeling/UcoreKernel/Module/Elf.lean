import UcoreKernel.Lib.Loop
import UcoreKernel.Module.Symbols

/-!
Object files in memory, as `module/mod_loader.c` reads them (`libs/elf.h`, for 64 bits).

The loader follows offsets that it takes from the file without checking them, so it can come to any
address. Memory is a partial function of the address, and an access where nothing is mapped stops the
kernel. The headers are read from memory each time they are used, because the loader writes into the
image while it reads it.
-/

namespace UcoreKernel.ModLoader

/-- Why a computation does not come back: it touches an address that nothing is mapped at, or it is
still running. -/
inductive Stop where
  | fault
  | running
deriving DecidableEq

abbrev Addr := BitVec 64

abbrev Mem := Addr → Option (BitVec 8)

/-! ### Memory -/

def readByte (m : Mem) (a : Addr) : Except Stop (BitVec 8) :=
  match m a with
  | none => .error .fault
  | some b => .ok b

/-- The number in the `n` bytes from `a` on, the lowest byte first. -/
def readNat (m : Mem) : ℕ → Addr → Except Stop ℕ
  | 0, _ => .ok 0
  | n + 1, a => do
      let b ← readByte m a
      let rest ← readNat m n (a + 1)
      return b.toNat + 256 * rest

/-- A word of `w` bits. -/
def read (w : ℕ) (m : Mem) (a : Addr) : Except Stop (BitVec w) := do
  let n ← readNat m (w / 8) a
  return BitVec.ofNat w n

/-- The `n` bytes from `a` on are given new values. -/
def fill (m : Mem) (a n : Addr) (data : ℕ → BitVec 8) : Except Stop Mem :=
  if ∀ i < n.toNat, (m (a + BitVec.ofNat 64 i)).isSome then
    .ok fun x => if x - a < n then some (data (x - a).toNat) else m x
  else .error .fault

/-- A word is stored. -/
def write {w : ℕ} (m : Mem) (a : Addr) (v : BitVec w) : Except Stop Mem :=
  fill m a (BitVec.ofNat 64 (w / 8)) fun i => BitVec.ofNat 8 (v.toNat >>> (8 * i))

/-! ### Headers -/

def elfMagic : BitVec 32 := 0x464C457F#32

def eMagic (m : Mem) (eh : Addr) : Except Stop (BitVec 32) := read 32 m eh

/-- `e_elf[0]` -/
def eElf (m : Mem) (eh : Addr) : Except Stop (BitVec 8) := read 8 m (eh + 4)

def eType (m : Mem) (eh : Addr) : Except Stop (BitVec 16) := read 16 m (eh + 16)

def eMachine (m : Mem) (eh : Addr) : Except Stop (BitVec 16) := read 16 m (eh + 18)

def eEntry (m : Mem) (eh : Addr) : Except Stop (BitVec 64) := read 64 m (eh + 24)

def eShoff (m : Mem) (eh : Addr) : Except Stop (BitVec 64) := read 64 m (eh + 40)

def eShentsize (m : Mem) (eh : Addr) : Except Stop (BitVec 16) := read 16 m (eh + 58)

def eShnum (m : Mem) (eh : Addr) : Except Stop (BitVec 16) := read 16 m (eh + 60)

def shType (m : Mem) (sh : Addr) : Except Stop (BitVec 32) := read 32 m (sh + 4)

/-- Where `sh_addr` is; the loader also writes it. -/
def shAddrField (sh : Addr) : Addr := sh + 16

def shAddr (m : Mem) (sh : Addr) : Except Stop (BitVec 64) := read 64 m (shAddrField sh)

def shOffset (m : Mem) (sh : Addr) : Except Stop (BitVec 64) := read 64 m (sh + 24)

def shSize (m : Mem) (sh : Addr) : Except Stop (BitVec 64) := read 64 m (sh + 32)

def shLink (m : Mem) (sh : Addr) : Except Stop (BitVec 32) := read 32 m (sh + 40)

def shInfo (m : Mem) (sh : Addr) : Except Stop (BitVec 32) := read 32 m (sh + 44)

def shAddralign (m : Mem) (sh : Addr) : Except Stop (BitVec 64) := read 64 m (sh + 48)

def shEntsize (m : Mem) (sh : Addr) : Except Stop (BitVec 64) := read 64 m (sh + 56)

def symName (m : Mem) (symtab : Addr) : Except Stop (BitVec 32) := read 32 m symtab

def symInfo (m : Mem) (symtab : Addr) : Except Stop (BitVec 8) := read 8 m (symtab + 4)

def symShndx (m : Mem) (symtab : Addr) : Except Stop (BitVec 16) := read 16 m (symtab + 6)

/-- Where `sym_address` is; the loader also writes it. -/
def symAddressField (symtab : Addr) : Addr := symtab + 8

def symAddress (m : Mem) (symtab : Addr) : Except Stop (BitVec 64) := read 64 m (symAddressField symtab)

def symSize (m : Mem) (symtab : Addr) : Except Stop (BitVec 64) := read 64 m (symtab + 16)

def rlOffset (m : Mem) (reloc : Addr) : Except Stop (BitVec 64) := read 64 m reloc

def rlInfo (m : Mem) (reloc : Addr) : Except Stop (BitVec 64) := read 64 m (reloc + 8)

def rlAddend (m : Mem) (reloc : Addr) : Except Stop (BitVec 64) := read 64 m (reloc + 16)

def shTypeSymtab : BitVec 32 := 2#32
def shTypeStrtab : BitVec 32 := 3#32
def shTypeRela : BitVec 32 := 4#32
def shTypeNobits : BitVec 32 := 8#32
def shTypeRel : BitVec 32 := 9#32

def shnUndef : BitVec 16 := 0#16
def shnCommon : BitVec 16 := 0xfff2#16
def shnLoreserve : BitVec 16 := 0xff00#16

def stbLocal : BitVec 8 := 0#8
def stbGlobal : BitVec 8 := 1#8
def stbWeak : BitVec 8 := 2#8

/-- The header of section `i`: the product is one of 32 bits. -/
def secthdr (m : Mem) (elf : Addr) (i : BitVec 32) : Except Stop Addr := do
  let shoff ← eShoff m elf
  let shentsize ← eShentsize m elf
  return elf + shoff + (i * shentsize.setWidth 32).setWidth 64

/-- The same where the index is an `uint16_t`, so that the product is an `int`. -/
def secthdrInt (m : Mem) (elf : Addr) (i : BitVec 16) : Except Stop Addr := do
  let shoff ← eShoff m elf
  let shentsize ← eShentsize m elf
  return elf + shoff + (i.setWidth 32 * shentsize.setWidth 32).signExtend 64

/-! ### Strings -/

/-- A string: a constant of the loader, or the bytes from an address on. -/
inductive Str where
  | lit (chars : Chars)
  | ptr (a : Addr)

def charAt (m : Mem) (s : Str) (i : ℕ) : Except Stop (BitVec 8) :=
  match s with
  | .lit chars => .ok (chars.getD i 0)
  | .ptr a => readByte m (a + BitVec.ofNat 64 i)

/-- Whether `strcmp` gives 0 for the string from its `i`th character on and a constant. -/
def strEq (m : Mem) (s : Str) : ℕ → Chars → Except Stop Bool
  | i, [] => do
      let c ← charAt m s i
      return c = 0#8
  | i, c :: cs => do
      let c' ← charAt m s i
      if c' = c then strEq m s (i + 1) cs else return false

/-- The characters up to the zero. -/
def readStr (m : Mem) (s : Str) (fuel : ℕ) : Except Stop Chars :=
  loop .running (fun cs => do
    let c ← charAt m s cs.length
    return if c = 0#8 then .done cs else .next (cs ++ [c])) fuel []

/-! ### The helpers of the loader -/

/-- The loop of `get_symbol_string`, with `n` sections to go. -/
def getSymbolStringLoop (m : Mem) (elf : Addr) (index : BitVec 32) : ℕ → BitVec 32 → Except Stop Str
  | 0, _ => .ok (.lit [])
  | n + 1, i => do
      let sh ← secthdr m elf i
      if (← shType m sh) = shTypeSymtab then
        let sh ← secthdr m elf (← shLink m sh)
        if (← shType m sh) = shTypeStrtab then
          if index = 0 then return .lit (chars " ")
          else return .ptr (elf + (← shOffset m sh) + index.setWidth 64)
        else getSymbolStringLoop m elf index n (i + 1)
      else getSymbolStringLoop m elf index n (i + 1)

/-- `get_symbol_string` -/
def getSymbolString (m : Mem) (elf : Addr) (index : BitVec 32) : Except Stop Str := do
  let shnum ← eShnum m elf
  getSymbolStringLoop m elf index shnum.toNat 0

/-- `get_section_offset` -/
def getSectionOffset (m : Mem) (elf : Addr) (info : BitVec 32) : Except Stop (BitVec 64) := do
  let sh ← secthdr m elf info
  if (← shType m sh) = shTypeNobits then shAddr m sh else shOffset m sh

/-- The loop of `fill_symbol_struct`, with `n` sections to go. -/
def fillSymbolStructLoop (m : Mem) (elf : Addr) (symbol : BitVec 32) : ℕ → BitVec 32 → Except Stop Addr
  | 0, _ => .ok 0
  | n + 1, i => do
      let sh ← secthdr m elf i
      if (← shType m sh) = shTypeSymtab then
        return elf + (← shOffset m sh) + symbol.setWidth 64 * (← shEntsize m sh)
      else fillSymbolStructLoop m elf symbol n (i + 1)

/-- `fill_symbol_struct` -/
def fillSymbolStruct (m : Mem) (elf : Addr) (symbol : BitVec 32) : Except Stop Addr := do
  let shnum ← eShnum m elf
  fillSymbolStructLoop m elf symbol shnum.toNat 0

/-- The messages that the loader prints with `error`. -/
inductive Message where
  | cannotFind
  | wrongSize (size : BitVec 64)
  | notEnoughMemory
  | invalidSignature (magic : BitVec 32)
  | notElfClass64
  | errorType (type : BitVec 16)
  | errorMachine (machine : BitVec 16)
  | errorEntry (entry : BitVec 64)
  | badAlign
  | alignFailed
  | noBss
  | memoryPointer (commonSpace : Addr)
  | unresolved (symName : Chars)
  | unhandledShndx
  | unsupported (type : BitVec 64)
  | relNotImplemented
  | infoNotFound
deriving DecidableEq

/-- Whether the message tells of something that went wrong. -/
def Message.isFailure : Message → Bool
  | .memoryPointer _ => false
  | _ => true

/-- `elf_head_check`: the message with which it fails. -/
def elfHeadCheck (m : Mem) (eh : Addr) : Except Stop (Option Message) := do
  let magic ← eMagic m eh
  if magic ≠ elfMagic then return some (.invalidSignature magic)
  if (← eElf m eh) ≠ 0x2#8 then return some .notElfClass64
  let type ← eType m eh
  if type ≠ 0x01#16 then return some (.errorType type)
  let machine ← eMachine m eh
  if machine ≠ 0x3e#16 then return some (.errorMachine machine)
  let entry ← eEntry m eh
  if entry ≠ 0 then return some (.errorEntry entry)
  return none

end UcoreKernel.ModLoader
