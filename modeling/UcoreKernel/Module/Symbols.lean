import UcoreKernel.Lib.IndexChain

/-!
The symbols that the kernel exports to its modules: the tables of `module/mod_loader.c`.

A record is an index into the arrays `ex_sym_*`. The records whose names have one hash are a list that
is threaded through `ex_sym_n` and begins in `ex_sym_f`. The names stand one behind the other in
`chars`. Records are added and never taken out; nothing checks whether there is room for one.
-/

namespace UcoreKernel.ModLoader

open Function List

/-- The characters of a string, before the terminating zero. -/
abbrev Chars := List (BitVec 8)

/-- The characters of a string constant. -/
def chars (str : String) : Chars := str.toList.map fun c => BitVec.ofNat 8 c.toNat

def charsMax : ℕ := 100000

def exportSymCountMax : ℕ := 1024

/-- `EXPORT_SYM_HASH` -/
def exportSymHash : BitVec 32 := 197#32

/-- The `-1` that ends a list, as the bits of an `int`. -/
def noSym : ℕ := 0xffffffff

/-- The static variables. `name` is the string that `ex_sym_name` points to, and `nameAt` is where it
begins in `chars`. -/
structure Symbols where
  count : ℕ
  charCount : ℕ
  first : ℕ → ℕ
  name : ℕ → Chars
  nameAt : ℕ → ℕ
  ptr : ℕ → BitVec 64
  flags : ℕ → BitVec 32
  next : ℕ → ℕ

/-- `mod_loader_init` -/
def modLoaderInit : Symbols :=
  ⟨0, 0, fun _ => noSym, fun _ => [], fun _ => 0, fun _ => 0, fun _ => 0, fun _ => 0⟩

/-- `sym_hash` -/
def symHash (name : Chars) : ℕ :=
  (name.foldl (fun ret c => (ret * 13#32 + c.signExtend 32) % exportSymHash) 0#32).toNat

/-- The walk along the records of one hash. -/
def walk (s : Symbols) (name : Chars) : ℕ :=
  chainSearch s.next noSym (fun cur => s.name cur = name) s.count (s.first (symHash name))

/-- A new record, at the front of the list of its hash. -/
def newSym (s : Symbols) (name : Chars) : Symbols :=
  { s with
    count := s.count + 1
    charCount := s.charCount + name.length + 1
    first := update s.first (symHash name) s.count
    name := update s.name s.count name
    nameAt := update s.nameAt s.count s.charCount
    next := update s.next s.count (s.first (symHash name)) }

/-- `find_export_sym` -/
def findExportSym (s : Symbols) (name : Chars) (touch : Bool) : Symbols × ℕ :=
  if walk s name = noSym ∧ touch then (newSym s name, s.count) else (s, walk s name)

/-- What `mod_touch_symbol` and `touch_export_sym` do alike. -/
def setSym (s : Symbols) (name : Chars) (ptr : BitVec 64) (flags : BitVec 32) : Symbols :=
  let (s, idx) := findExportSym s name true
  { s with ptr := update s.ptr idx ptr, flags := update s.flags idx flags }

/-- `mod_touch_symbol` -/
def modTouchSymbol (s : Symbols) (name : Chars) (ptr : BitVec 64) (flags : BitVec 32) : Symbols :=
  setSym s name ptr flags

/-- `touch_export_sym` -/
def touchExportSym (s : Symbols) (name : Chars) (ptr : BitVec 64) (flags : BitVec 32) : Symbols :=
  setSym s name ptr flags

/-- `mod_disable_symbol` -/
def modDisableSymbol (s : Symbols) (name : Chars) : Symbols :=
  let (s, idx) := findExportSym s name false
  if idx = noSym then s else { s with ptr := update s.ptr idx 0 }

/-- `elf_mod_create_symbol`; its result is not used. -/
def elfModCreateSymbol (s : Symbols) (name : Chars) (ptr : BitVec 64) (flags : BitVec 32) : Symbols :=
  let (s, idx) := findExportSym s name true
  if idx ≠ s.count - 1 then s
  else { s with ptr := update s.ptr idx ptr, flags := update s.flags idx flags }

/-! ### The lists -/

/-- The records of each hash are a list; every record is in the list of its hash; and no two have one
name. -/
structure Linked (s : Symbols) : Prop where
  chain : ∀ h, ∃ l : List ℕ, IndexChain s.next noSym (s.first h) l ∧ l.Nodup ∧
    ∀ i, i ∈ l ↔ i < s.count ∧ symHash (s.name i) = h
  inj : ∀ i < s.count, ∀ j < s.count, s.name i = s.name j → i = j
  count : s.count ≤ noSym

variable {s : Symbols} {name : Chars} {i : ℕ}

lemma linked_modLoaderInit : Linked modLoaderInit where
  chain := fun _ => ⟨[], rfl, nodup_nil, fun i => by simp [modLoaderInit]⟩
  inj := fun i hi => absurd hi (Nat.not_lt_zero i)
  count := Nat.zero_le _

section

variable (hs : Linked s)
include hs

/-- The walk finds the first record with the name in the list of the name's hash. -/
lemma walk_eq (name : Chars) : ∃ l : List ℕ, (∀ i, i ∈ l ↔ i < s.count ∧ symHash (s.name i) = symHash name) ∧
      walk s name = (l.find? fun cur => s.name cur = name).getD noSym := by
  obtain ⟨l, hchain, hnodup, hmem⟩ := hs.chain (symHash name)
  have hsub : l ⊆ range s.count := fun j hj => mem_range.mpr ((hmem j).mp hj).1
  have hlength : l.length ≤ s.count := by simpa using (hnodup.subperm hsub).length_le
  exact ⟨l, hmem, hchain.search_eq hlength⟩

/-- It ends at the mark exactly if there is no record with the name. -/
lemma walk_eq_noSym_iff : walk s name = noSym ↔ ∀ i < s.count, s.name i ≠ name := by
  obtain ⟨l, hmem, hwalk⟩ := walk_eq hs name
  rw [hwalk]
  cases hfind : l.find? fun cur => decide (s.name cur = name) with
  | none => grind
  | some j =>
    have hj := ((hmem j).mp (mem_of_find?_eq_some hfind)).1
    have hcount := hs.count
    grind

/-! ### New records -/

/-- A new name gets a record at the front of the list of its hash. -/
lemma linked_newSym (hnew : ∀ i < s.count, s.name i ≠ name)
    (hroom : s.count < noSym) : Linked (newSym s name) where
  chain := fun h => by
    obtain ⟨l, hchain, hnodup, hmem⟩ := hs.chain h
    have hcount : s.count ∉ l := fun hin => lt_irrefl _ ((hmem _).mp hin).1
    have hold : ∀ i < s.count, (newSym s name).name i = s.name i := fun i hi =>
      update_of_ne (by omega) ..
    by_cases hh : h = symHash name
    · subst hh
      refine ⟨s.count :: l, ?_, nodup_cons.mpr ⟨hcount, hnodup⟩, fun i => ?_⟩
      · have := hchain.push hcount (by omega)
        simpa [newSym] using this
      · rw [mem_cons, hmem]
        rcases lt_trichotomy i s.count with hi | rfl | hi
        · rw [hold i hi]
          simp only [newSym]
          omega
        · simp [newSym]
        · simp only [newSym]
          omega
    · refine ⟨l, ?_, hnodup, fun i => ?_⟩
      · have hfirst : (newSym s name).first h = s.first h := update_of_ne hh ..
        rw [hfirst]
        exact hchain.congr fun i hi => update_of_ne
          (fun hEq : i = s.count => hcount (hEq ▸ hi)) ..
      · rw [hmem]
        rcases lt_trichotomy i s.count with hi | rfl | hi
        · rw [hold i hi]
          simp only [newSym]
          omega
        · have hname : (newSym s name).name s.count = name := update_self ..
          rw [hname]
          simp [newSym, Ne.symm hh]
        · simp only [newSym]
          omega
  inj := fun i hi j hj hname => by
    simp only [newSym, update_apply] at hi hj hname
    split_ifs at hname with hi' hj' hj'
    · omega
    · exact absurd hname.symm (hnew j (by omega))
    · exact absurd hname (hnew i (by omega))
    · exact hs.inj i (by omega) j (by omega) hname
  count := hroom

/-- The names of the records, the oldest first. -/
def Symbols.names (s : Symbols) : List Chars := (List.range s.count).map s.name

lemma Linked.names_nodup : s.names.Nodup := by
  refine (nodup_map_iff_inj_on nodup_range).mpr fun i hi j hj => ?_
  exact hs.inj i (mem_range.mp hi) j (mem_range.mp hj)

end

lemma names_newSym : (newSym s name).names = s.names ++ [name] := by
  have hold : (range s.count).map (newSym s name).name = (range s.count).map s.name :=
    map_congr_left fun i hi =>
      update_of_ne (mem_range.mp hi).ne ..
  have hnew : (newSym s name).name s.count = name := update_self ..
  grind [Symbols.names, newSym, range_succ]

/-- Where the names stand in `chars`: each behind the ones before it. -/
structure Packed (s : Symbols) : Prop where
  charCount : s.charCount = (s.names.map fun name => name.length + 1).sum
  nameAt : ∀ i < s.count, s.nameAt i + (s.name i).length + 1 ≤ s.charCount

lemma packed_modLoaderInit : Packed modLoaderInit where
  charCount := rfl
  nameAt := fun i hi => absurd hi (Nat.not_lt_zero i)

lemma packed_newSym (hs : Packed s) : Packed (newSym s name) where
  charCount := by
    rw [names_newSym, map_append, sum_append, ← hs.charCount]
    simp [newSym, add_assoc]
  nameAt := fun i hi => by
    obtain rfl | hlast := eq_or_ne i s.count
    · simp [newSym]
    · have hname : (newSym s name).name i = s.name i := update_of_ne hlast ..
      have hat : (newSym s name).nameAt i = s.nameAt i := update_of_ne hlast ..
      have := hs.nameAt i (by simp only [newSym] at hi; omega)
      rw [hname, hat]
      simp only [newSym]
      omega

/-! ### Names from a fixed list -/

/-- The records are well linked and packed, and their names are among `all`. -/
structure Tidy (all : List Chars) (s : Symbols) : Prop where
  linked : Linked s
  packed : Packed s
  names : ∀ name ∈ s.names, name ∈ all

variable {all : List Chars}

lemma tidy_modLoaderInit : Tidy all modLoaderInit :=
  ⟨linked_modLoaderInit, packed_modLoaderInit, fun name hname => by simp [Symbols.names, modLoaderInit] at hname⟩

variable (hs : Tidy all s)
include hs

/-- There are no more records than names in the list, and they take no more room. -/
lemma Tidy.bounds : s.count ≤ all.length ∧ s.charCount ≤ (all.map fun name => name.length + 1).sum := by
  have hsub : s.names.Subperm all := hs.linked.names_nodup.subperm hs.names
  refine ⟨by simpa [Symbols.names] using hsub.length_le, ?_⟩
  obtain ⟨l, hperm, hsublist⟩ := hsub
  rw [hs.packed.charCount, ← (hperm.map _).sum_eq]
  exact (hsublist.map _).sum_le_sum fun _ _ => Nat.zero_le _

/-- Only the pointers and flags differ. -/
lemma Tidy.of_eq {s' : Symbols} (hcount : s'.count = s.count)
    (hchars : s'.charCount = s.charCount) (hfirst : s'.first = s.first) (hname : s'.name = s.name)
    (hat : s'.nameAt = s.nameAt) (hnext : s'.next = s.next) : Tidy all s' := by
  obtain ⟨hlinked, hpacked, hnames⟩ := hs
  have hnames' : s'.names = s.names := by rw [Symbols.names, Symbols.names, hcount, hname]
  refine ⟨⟨?_, ?_, ?_⟩, ⟨?_, ?_⟩, ?_⟩
  · rw [hcount, hfirst, hname, hnext]
    exact hlinked.chain
  · rw [hcount, hname]
    exact hlinked.inj
  · rw [hcount]
    exact hlinked.count
  · rw [hnames', hchars]
    exact hpacked.charCount
  · rw [hcount, hname, hat, hchars]
    exact hpacked.nameAt
  · rw [hnames']
    exact hnames

/-- A name of the list gets a record if it has none. -/
lemma Tidy.findExportSym (hname : name ∈ all) (hall : all.length < noSym)
    (touch : Bool) : Tidy all (findExportSym s name touch).1 := by
  rw [ModLoader.findExportSym]
  split_ifs with h
  · have hcount := hs.bounds.1
    refine ⟨linked_newSym hs.linked ((walk_eq_noSym_iff hs.linked).mp h.1) (by omega),
      packed_newSym hs.packed, fun n hn => ?_⟩
    rw [names_newSym, mem_append, mem_singleton] at hn
    obtain hn | rfl := hn
    · exact hs.names n hn
    · exact hname
  · exact hs

lemma Tidy.setSym (hname : name ∈ all) (hall : all.length < noSym)
    (ptr : BitVec 64) (flags : BitVec 32) : Tidy all (setSym s name ptr flags) :=
  (hs.findExportSym hname hall true).of_eq rfl rfl rfl rfl rfl rfl

lemma Tidy.modDisableSymbol : Tidy all (modDisableSymbol s name) := by
  have hfind : (ModLoader.findExportSym s name false).1 = s := by simp [ModLoader.findExportSym]
  rw [ModLoader.modDisableSymbol]
  dsimp only
  rw [hfind]
  split_ifs with h
  · exact hs
  · exact hs.of_eq rfl rfl rfl rfl rfl rfl

end UcoreKernel.ModLoader
