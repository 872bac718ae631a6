import Mathlib.Data.Finmap
import UcoreKernel.Lib.LinearProbe

/-!
The table of loaded kernel modules, `module/mod_manager.c`: `MX` cells, a string hash, and linear
probing from the hash of a name.

The table is compared with a finite map from names to records that holds at most `MX` of them.

* **Probing.** `hash_find` and `hash_locate` are the search of `LinearProbe` (`hashFind_eq`,
  `hashLocate_eq`), and never run for more than one round.
* **Deletions.** `hash_remove` empties the cell and leaves no mark there, so a name behind it is
  not found again (`delModule_unsafe`). `module_table_agrees_iff` says that this is all: a history
  of calls agrees with the map exactly when each of its deletions is safe.
-/

namespace UcoreKernel.ModManager

open Function List

/-- The number of cells. -/
def MX : ℕ := 97

/-- A string: its characters before the terminating zero. Its length fits an `int`. -/
structure Name where
  chars : List (BitVec 8)
  nonzero : 0#8 ∉ chars
  length_lt : chars.length < 2 ^ 31 - 1
deriving DecidableEq

/-- `table` and `modules`; `none` is `NULL`, and `R` is what a record's address points to. -/
structure Tables (R : Type) where
  table : ℕ → Option Name
  modules : ℕ → Option R

/-- Both arrays start out zeroed. -/
def Tables.init {R : Type} : Tables R := ⟨fun _ => none, fun _ => none⟩

section Model

variable {R : Type}

-- How a `char` becomes an `int`: with its sign on x86, without on ARM.
variable (charExt : BitVec 8 → BitVec 32)

/-- `hash`. -/
def hash (str : Name) : ℕ :=
  let hash := str.chars.foldl
    (fun (hash : BitVec 32) c => charExt c + (hash <<< 6) + (hash <<< 16) - hash) 0#32
  (hash &&& 0x7fffffff#32).toNat % MX

/-- The step of both loops to the next cell. -/
def nextLoc (loc : ℕ) : ℕ :=
  if loc + 1 ≥ MX then (loc + 1) % MX else loc + 1

/-- The loop of `hash_locate`. The outer `none` is a loop that is still running when the fuel is
used up, the inner one is the result `-1`. -/
def hashLocateLoop (table : ℕ → Option Name) (str : Name) (ori : ℕ) : ℕ → ℕ → Option (Option ℕ)
  | 0, _ => none
  | fuel + 1, loc =>
    match table loc with
    | none => some (some loc)
    | some s =>
      if s = str then some (some loc)
      else if nextLoc loc = ori then some none
      else hashLocateLoop table str ori fuel (nextLoc loc)

/-- `hash_locate`; `-1` is `none`. -/
def hashLocate (s : Tables R) (str : Name) : Option ℕ :=
  (hashLocateLoop s.table str (hash charExt str) MX (hash charExt str)).getD none

/-- The loop of `hash_find`, with the same two `none`. -/
def hashFindLoop (table : ℕ → Option Name) (str : Name) (ori : ℕ) : ℕ → ℕ → Option (Option ℕ)
  | 0, _ => none
  | fuel + 1, loc =>
    match table loc with
    | none => some none
    | some s =>
      if s = str then some (some loc)
      else if nextLoc loc = ori then some none
      else hashFindLoop table str ori fuel (nextLoc loc)

/-- `hash_find`; `-1` is `none`. -/
def hashFind (s : Tables R) (str : Name) : Option ℕ :=
  (hashFindLoop s.table str (hash charExt str) MX (hash charExt str)).getD none

/-- `int len = strlen(name)`. -/
def strlenInt (name : Name) : ℤ := (BitVec.ofNat 32 name.chars.length).toInt

/-- `hash_insert`. The copy of the name is the name. -/
def hashInsert (s : Tables R) (name : Name) : Tables R × Option ℕ :=
  let len := strlenInt name
  match hashLocate charExt s name with
  | none => (s, none)
  | some index =>
    if len < 0 ∨ s.table index ≠ none then (s, none)
    else ({ s with table := update s.table index (some name) }, some index)

/-- `hash_remove`. -/
def hashRemove (s : Tables R) (name : Name) : Tables R × Option ℕ :=
  match hashFind charExt s name with
  | none => (s, none)
  | some index =>
    if s.table index ≠ some name then (s, none)
    else ({ s with table := update s.table index none }, some index)

/-- `add_module`. -/
def addModule (s : Tables R) (name : Name) (info : Option R) : Tables R × Option ℕ :=
  match hashInsert charExt s name with
  | (s, none) => (s, none)
  | (s, some ret) => ({ s with modules := update s.modules ret info }, some ret)

/-- `del_module`. -/
def delModule (s : Tables R) (name : Name) : Tables R × Option ℕ :=
  match hashRemove charExt s name with
  | (s, none) => (s, none)
  | (s, some ret) => ({ s with modules := update s.modules ret none }, some ret)

/-- `get_module`. -/
def getModule (s : Tables R) (name : Name) : Option R :=
  match hashFind charExt s name with
  | none => none
  | some ret => s.modules ret

/-- `module_loaded`. -/
def moduleLoaded (s : Tables R) (name : Name) : Bool := (hashFind charExt s name).isSome

/-- A call, with what the caller passes. -/
inductive Call (R : Type) where
  | add (name : Name) (info : Option R)
  | del (name : Name)
  | get (name : Name)
  | loaded (name : Name)

/-- What a caller is told: whether the call succeeded, the record, whether it is loaded. -/
inductive Answer (R : Type) where
  | status (ok : Bool)
  | record (info : Option R)
  | loaded (yes : Bool)
deriving DecidableEq

/-- One call on the table. -/
def call (s : Tables R) : Call R → Tables R × Answer R
  | .add name info => ((addModule charExt s name info).1, .status (addModule charExt s name info).2.isSome)
  | .del name => ((delModule charExt s name).1, .status (delModule charExt s name).2.isSome)
  | .get name => (s, .record (getModule charExt s name))
  | .loaded name => (s, .loaded (moduleLoaded charExt s name))

/-! ### The finite map -/

/-- A finite map from names to records. -/
abbrev ModMap (R : Type) := Finmap fun _ : Name => Option R

/-- One call on the map: a name is added once, and while there is room. -/
def mapCall (m : ModMap R) : Call R → ModMap R × Answer R
  | .add name info =>
    if name ∈ m ∨ MX ≤ m.keys.card then (m, .status false)
    else (m.insert name info, .status true)
  | .del name => if name ∈ m then (m.erase name, .status true) else (m, .status false)
  | .get name => (m, .record (m.lookup name).join)
  | .loaded name => (m, .loaded (m.lookup name).isSome)

/-- Every name is found exactly when it is in the map, with its record. -/
def LookupsAgree (s : Tables R) (m : ModMap R) : Prop :=
  ∀ name, moduleLoaded charExt s name = (m.lookup name).isSome ∧
    getModule charExt s name = (m.lookup name).join

/-- The table behaves as the map through a history of calls: every call gives the same answer, and
before and after each of them every name is found as in the map. -/
def Agrees (s : Tables R) (m : ModMap R) : List (Call R) → Prop
  | [] => LookupsAgree charExt s m
  | c :: calls => LookupsAgree charExt s m ∧ (call charExt s c).2 = (mapCall m c).2 ∧
      Agrees (call charExt s c).1 (mapCall m c).1 calls

/-- How many cells behind the hash of the name the cell `i` lies. -/
def probeDistance (name : Name) (i : ℕ) : ℕ := (i + MX - hash charExt name) % MX

/-- No other name that is found was put behind the cell of `name` on its own way. -/
def DelSafe (s : Tables R) (name : Name) : Prop :=
  ∀ i, hashFind charExt s name = some i → ∀ other, other ≠ name →
    ∀ j, hashFind charExt s other = some j →
      probeDistance charExt other j ≤ probeDistance charExt other i

/-- The condition on one call. -/
def CallSafe (s : Tables R) : Call R → Prop
  | .del name => DelSafe charExt s name
  | _ => True

/-- Every deletion of a history is safe in the table it meets. -/
def AllSafe (s : Tables R) : List (Call R) → Prop
  | [] => True
  | c :: calls => CallSafe charExt s c ∧ AllSafe (call charExt s c).1 calls

end Model

/-! ### The loops are searches -/

variable {R : Type} {charExt : BitVec 8 → BitVec 32} {s : Tables R} {m : ModMap R}
  {name other : Name} {i j d : ℕ}

open LinearProbe

lemma MX_pos : 0 < MX := by decide

lemma hash_lt (charExt : BitVec 8 → BitVec 32) (str : Name) : hash charExt str < MX :=
  Nat.mod_lt _ MX_pos

lemma nextLoc_slot (a d : ℕ) : nextLoc (slot MX a d) = slot MX a (d + 1) := by
  grind [MX, nextLoc, slot]

/-- The walk is back at its start after `MX` steps and not before. -/
lemma slot_eq_start {a : ℕ} (ha : a < MX) (hd : d < MX) : slot MX a (d + 1) = a ↔ d + 1 = MX := by
  have h0 : slot MX a 0 = a := Nat.mod_eq_of_lt ha
  constructor
  · intro hEq
    by_contra hne
    exact absurd (slot_inj (by omega) MX_pos (hEq.trans h0.symm)) (by omega)
  · intro hEq
    rw [hEq, slot, Nat.add_mod_right, Nat.mod_eq_of_lt ha]

variable (charExt) in
/-- A search that ended with the key or an empty cell, as `hash_locate` reports it. -/
def locateResult (name : Name) (r : Option ℕ) : Option ℕ :=
  r.map (slot MX (hash charExt name))

variable (charExt) in
/-- A search as `hash_find` reports it: an empty cell is `-1`. -/
def findResult (table : ℕ → Option Name) (name : Name) (r : Option ℕ) : Option ℕ :=
  (locateResult charExt name r).filter fun i => table i = some name

/-- The loop of `hash_locate` after `d` steps that did not end it. -/
lemma hashLocateLoop_eq (charExt : BitVec 8 → BitVec 32) (table : ℕ → Option Name) (name : Name)
    (fuel d : ℕ) (hfuel : d + fuel = MX) (hpos : 0 < fuel) (hpast : ∀ e < d, ¬Stops MX (hash charExt) table name e) :
    hashLocateLoop table name (hash charExt name) fuel (slot MX (hash charExt name) d) =
      some (locateResult charExt name (search MX (hash charExt) table name)) := by
  induction fuel generalizing d with
  | zero => omega
  | succ fuel ih =>
    rw [hashLocateLoop]
    cases hcell : table (slot MX (hash charExt name) d) with
    | none =>
      have hs : search MX (hash charExt) table name = some d :=
        search_eq_some.mpr ⟨by omega, .inl hcell, hpast⟩
      rw [hs]
      rfl
    | some str =>
      dsimp only
      obtain rfl | hEq := eq_or_ne str name
      · have hs : search MX (hash charExt) table str = some d :=
          search_eq_some.mpr ⟨by omega, .inr hcell, hpast⟩
        rw [if_pos rfl, hs]
        rfl
      · have hnot : ¬Stops MX (hash charExt) table name d := by
          simp [Stops, hcell, hEq]
        have hpast' : ∀ e < d + 1, ¬Stops MX (hash charExt) table name e := fun e he =>
          (Nat.lt_succ_iff_lt_or_eq.mp he).elim (hpast e) fun h => h ▸ hnot
        rw [if_neg hEq, nextLoc_slot]
        by_cases hround : d + 1 = MX
        · have hs : search MX (hash charExt) table name = none :=
            search_eq_none.mpr (hround ▸ hpast')
          rw [if_pos ((slot_eq_start (hash_lt ..) (by omega)).mpr hround), hs]
          rfl
        · grind [slot_eq_start, hash_lt]

/-- The two loops walk alike; `hash_find` gives `-1` for an empty cell. -/
lemma hashFindLoop_eq (table : ℕ → Option Name) (name : Name) (ori fuel loc : ℕ) :
    hashFindLoop table name ori fuel loc = (hashLocateLoop table name ori fuel loc).map
      fun r => r.filter fun i => table i = some name := by
  induction fuel generalizing loc with
  | zero => rfl
  | succ fuel ih => grind [hashFindLoop, hashLocateLoop]

lemma slot_hash_zero (charExt : BitVec 8 → BitVec 32) (name : Name) :
    slot MX (hash charExt name) 0 = hash charExt name := Nat.mod_eq_of_lt (hash_lt ..)

lemma hashLocate_eq (s : Tables R) (name : Name) : hashLocate charExt s name =
    locateResult charExt name (search MX (hash charExt) s.table name) := by
  have hloop := hashLocateLoop_eq charExt s.table name MX 0 (zero_add _) MX_pos (by simp)
  rw [slot_hash_zero] at hloop
  rw [hashLocate, hloop, Option.getD_some]

lemma hashFind_eq (s : Tables R) (name : Name) : hashFind charExt s name =
    findResult charExt s.table name (search MX (hash charExt) s.table name) := by
  have hloop := hashLocateLoop_eq charExt s.table name MX 0 (zero_add _) MX_pos (by simp)
  grind [slot_hash_zero, hashFind, hashFindLoop_eq, findResult]

/-- `hash_find` returns the cell of a placed name and nothing else. -/
lemma hashFind_eq_some : hashFind charExt s name = some i ↔
    ∃ d, Placed MX (hash charExt) s.table name d ∧ slot MX (hash charExt name) d = i := by
  rw [hashFind_eq, findResult, locateResult, Option.filter_eq_some_iff, Option.map_eq_some_iff, decide_eq_true_eq]
  constructor
  · grind [placed_of_search]
  · rintro ⟨d, hp, rfl⟩
    exact ⟨⟨d, hp.search_eq, rfl⟩, hp.here⟩

lemma hashFind_lt (hfind : hashFind charExt s name = some i) : i < MX := by
  obtain ⟨d, -, rfl⟩ := hashFind_eq_some.mp hfind
  exact slot_lt MX_pos ..

lemma hashFind_cell (hfind : hashFind charExt s name = some i) : s.table i = some name := by
  obtain ⟨d, hp, rfl⟩ := hashFind_eq_some.mp hfind
  exact hp.here

lemma probeDistance_slot (hd : d < MX) : probeDistance charExt name (slot MX (hash charExt name) d) = d := by
  have hlt := hash_lt charExt name
  rw [probeDistance, slot]
  obtain hin | hout := lt_or_ge (hash charExt name + d) MX
  · grind [MX]
  · grind [MX]

/-! ### The table represents a map -/

variable (charExt) in
/-- The table is well placed, and its cells with their records are the entries of the map. -/
structure Refines (s : Tables R) (m : ModMap R) : Prop where
  placed : WellPlaced MX (hash charExt) s.table
  entries : ∀ name info, m.lookup name = some info ↔
    ∃ i < MX, s.table i = some name ∧ s.modules i = info

/-- The zeroed arrays are the empty map. -/
lemma refines_init : Refines charExt (Tables.init : Tables R) ∅ where
  placed := fun _ _ _ h => by cases h
  entries := fun _ _ => by simp [Tables.init]

namespace Refines

variable (hr : Refines charExt s m)
include hr

/-- A name is found in the cell it is in. -/
lemma hashFind_iff : hashFind charExt s name = some i ↔ i < MX ∧ s.table i = some name := by
  constructor
  · exact fun h => ⟨hashFind_lt h, hashFind_cell h⟩
  · rintro ⟨hi, hcell⟩
    exact hashFind_eq_some.mpr (hr.placed i hi name hcell)

lemma mem_iff : name ∈ m ↔ ∃ i < MX, s.table i = some name := by
  rw [Finmap.mem_iff]
  simp only [hr.entries]
  exact ⟨fun ⟨_, i, hi, hcell, _⟩ => ⟨i, hi, hcell⟩, fun ⟨i, hi, hcell⟩ => ⟨_, i, hi, hcell, rfl⟩⟩

lemma lookup_of_find (hfind : hashFind charExt s name = some i) : m.lookup name = some (s.modules i) :=
  (hr.entries _ _).mpr ⟨i, hashFind_lt hfind, hashFind_cell hfind, rfl⟩

lemma lookup_of_not_find (hfind : hashFind charExt s name = none) : m.lookup name = none := by
  rw [Finmap.lookup_eq_none, hr.mem_iff]
  rintro ⟨i, hi, hcell⟩
  have hsome := hr.hashFind_iff.mpr ⟨hi, hcell⟩
  rw [hfind] at hsome
  cases hsome

/-- Every name is found as in the map. -/
lemma lookupsAgree : LookupsAgree charExt s m := by
  intro name
  rw [moduleLoaded, getModule]
  cases hfind : hashFind charExt s name with
  | none => simp [hr.lookup_of_not_find hfind]
  | some i => simp [hr.lookup_of_find hfind]

/-- The map has as many entries as the table has names. -/
lemma card_keys : m.keys.card = ((range MX).filterMap s.table).length := by
  have hkeys : m.keys = ((range MX).filterMap s.table).toFinset := by
    ext name
    rw [Finmap.mem_keys, hr.mem_iff, mem_toFinset, mem_filterMap]
    simp only [mem_range]
  rw [hkeys, toFinset_card_of_nodup hr.placed.keys_nodup]

/-- A map with `MX` entries leaves no cell empty. -/
lemma full_iff : MX ≤ m.keys.card ↔ ∀ i < MX, s.table i ≠ none := by
  have hlen : ((range MX).filterMap s.table).length ≤ MX := by grind
  rw [hr.card_keys]
  constructor
  · intro hfull i hi
    have hEq : ((range MX).filterMap s.table).length = (range MX).length := by
      rw [length_range]
      omega
    have hsome := filterMap_length_eq_length.mp hEq i (mem_range.mpr hi)
    exact Option.isSome_iff_ne_none.mp hsome
  · intro hall
    have hEq : ((range MX).filterMap s.table).length = (range MX).length :=
      filterMap_length_eq_length.mpr fun i hi =>
        Option.isSome_iff_ne_none.mpr (hall i (mem_range.mp hi))
    rw [hEq, length_range]

end Refines

/-! ### One call -/

lemma strlenInt_nonneg (name : Name) : ¬strlenInt name < 0 := by
  have hlen := name.length_lt
  grind [strlenInt, BitVec.toNat_ofNat]

/-- Where `hash_insert` puts a name, or why it does not. -/
lemma hashInsert_eq (s : Tables R) (name : Name) : hashInsert charExt s name =
    match hashLocate charExt s name with
    | none => (s, none)
    | some index =>
      if s.table index ≠ none then (s, none)
      else ({ s with table := update s.table index (some name) }, some index) := by
  simp only [hashInsert, strlenInt_nonneg, false_or]

/-- A new cell for a name that was not there adds its entry. -/
lemma Refines.insert (hr : Refines charExt s m) (hmem : name ∉ m) (info : Option R)
    (hs : search MX (hash charExt) s.table name = some d) : Refines charExt
      ⟨update s.table (slot MX (hash charExt name) d) (some name),
        update s.modules (slot MX (hash charExt name) d) info⟩ (m.insert name info) := by
  have habs : ∀ i < MX, s.table i ≠ some name := fun i hi hcell =>
    hmem (hr.mem_iff.mpr ⟨i, hi, hcell⟩)
  have hcell : slot MX (hash charExt name) d < MX := slot_lt MX_pos ..
  have hempty : s.table (slot MX (hash charExt name) d) = none :=
    (search_eq_some.mp hs).2.1.resolve_right (habs _ hcell)
  refine ⟨hr.placed.insert MX_pos habs hs, fun key _ => ?_⟩
  dsimp only
  obtain rfl | hkey := eq_or_ne key name
  · rw [Finmap.lookup_insert]
    constructor
    · intro hrec
      exact ⟨_, hcell, update_self .., by
        rw [update_self, Option.some.inj hrec]⟩
    · grind
  · rw [Finmap.lookup_insert_of_ne _ hkey, hr.entries]
    refine exists_congr fun i => and_congr_right fun hi => ?_
    by_cases hEq : i = slot MX (hash charExt name) d
    · grind
    · grind

/-- `add_module` does what the map does. -/
lemma addModule_refines (hr : Refines charExt s m) (name : Name) (info : Option R) :
    Refines charExt (call charExt s (.add name info)).1 (mapCall m (.add name info)).1 ∧
      (call charExt s (.add name info)).2 = (mapCall m (.add name info)).2 := by
  rw [call, mapCall, addModule, hashInsert_eq, hashLocate_eq, locateResult]
  cases hs : search MX (hash charExt) s.table name with
  | none =>
    -- The walk came round: every cell holds another name.
    have hfull : MX ≤ m.keys.card := by
      refine hr.full_iff.mpr fun i hi hnone => ?_
      obtain ⟨d, hd, rfl⟩ := exists_slot (a := hash charExt name) hi
      exact search_eq_none.mp hs d hd (.inl hnone)
    rw [if_pos (.inr hfull)]
    exact ⟨hr, rfl⟩
  | some d =>
    obtain ⟨hd, hstop, -⟩ := search_eq_some.mp hs
    dsimp only [Option.map_some]
    have hcell : slot MX (hash charExt name) d < MX := slot_lt MX_pos ..
    obtain hnone | hsome := hstop
    · have hmem : name ∉ m := by
        rw [hr.mem_iff]
        rintro ⟨i, hi, ht⟩
        obtain ⟨e, hp, rfl⟩ := hr.placed i hi name ht
        cases hp.search_eq.symm.trans hs
        exact Option.some_ne_none _ (ht.symm.trans hnone)
      have hroom : ¬MX ≤ m.keys.card := fun hfull => hr.full_iff.mp hfull _ hcell hnone
      rw [if_neg (by simp [hnone]), if_neg (by simp [hmem, hroom])]
      exact ⟨hr.insert hmem info hs, rfl⟩
    · have hmem : name ∈ m := hr.mem_iff.mpr ⟨_, hcell, hsome⟩
      grind

/-- `add_module` changes which names are found, unless the name is found already or no cell is empty. -/
lemma moduleLoaded_addModule_iff (s : Tables R) (name : Name) (info : Option R) :
    (∀ other, moduleLoaded charExt (addModule charExt s name info).1 other = moduleLoaded charExt s other) ↔
      moduleLoaded charExt s name = true ∨ ∀ i < MX, s.table i ≠ none := by
  rw [addModule, hashInsert_eq, hashLocate_eq, locateResult]
  cases hs : search MX (hash charExt) s.table name with
  | none =>
    refine iff_of_true (fun _ => rfl) (.inr fun i hi hnone => ?_)
    obtain ⟨d, hd, rfl⟩ := exists_slot (a := hash charExt name) hi
    exact search_eq_none.mp hs d hd (.inl hnone)
  | some d =>
    obtain ⟨hd, hstop, hbefore⟩ := search_eq_some.mp hs
    dsimp only [Option.map_some]
    obtain hnone | hsome := hstop
    · rw [if_neg (by simp [hnone])]
      -- the name was not found before, and is found in the cell that it was put into
      have hold : moduleLoaded charExt s name = false := by
        rw [moduleLoaded, hashFind_eq, hs, findResult, locateResult]
        simp [Option.filter, hnone]
      refine iff_of_false (fun h => ?_) ?_
      · have hplaced : Placed MX (hash charExt)
            (update s.table (slot MX (hash charExt name) d) (some name)) name d := by
          refine ⟨hd, update_self .., fun e he => ?_⟩
          rw [update_of_ne fun hEq => absurd (slot_inj (by omega) hd hEq) (by omega)]
          exact not_or.mp (hbefore e he)
        have hnew := h name
        rw [hold, moduleLoaded, hashFind_eq_some.mpr ⟨d, hplaced, rfl⟩] at hnew
        cases hnew
      · grind [slot_lt]
    · grind [moduleLoaded, hashFind_eq, findResult, locateResult]

/-- What `del_module` does to a name that is found. -/
lemma delModule_of_find (hfind : hashFind charExt s name = some i) : delModule charExt s name =
      (⟨update s.table i none, update s.modules i none⟩, some i) := by
  simp [delModule, hashRemove, hfind, hashFind_cell hfind]

lemma delModule_of_not_find (hfind : hashFind charExt s name = none) :
    delModule charExt s name = (s, none) := by
  simp [delModule, hashRemove, hfind]

/-- A safe deletion passes no other name's way. -/
lemma DelSafe.not_passed (hsafe : DelSafe charExt s name)
    (hp : Placed MX (hash charExt) s.table name d) (other : Name) (e : ℕ) (hne : other ≠ name)
    (hp' : Placed MX (hash charExt) s.table other e) (e' : ℕ) (he' : e' < e) :
    slot MX (hash charExt other) e' ≠ slot MX (hash charExt name) d := by
  intro hEq
  have hle := hsafe _ (hashFind_eq_some.mpr ⟨d, hp, rfl⟩) other hne _ (hashFind_eq_some.mpr ⟨e, hp', rfl⟩)
  have hlt := hp'.lt
  grind [probeDistance_slot]

section

variable (hr : Refines charExt s m)
include hr

/-- Emptying the cell of a name takes its entry away. -/
lemma Refines.erase (hsafe : DelSafe charExt s name) (hp : Placed MX (hash charExt) s.table name d) :
    Refines charExt ⟨update s.table (slot MX (hash charExt name) d) none,
        update s.modules (slot MX (hash charExt name) d) none⟩ (m.erase name) := by
  have hcell : slot MX (hash charExt name) d < MX := slot_lt MX_pos ..
  refine ⟨hr.placed.remove hp (hsafe.not_passed hp), fun key _ => ?_⟩
  dsimp only
  obtain rfl | hkey := eq_or_ne key name
  · rw [Finmap.lookup_erase]
    refine iff_of_false (by simp) ?_
    rintro ⟨i, hi, ht, -⟩
    by_cases hEq : i = slot MX (hash charExt key) d
    · rw [hEq, update_self] at ht
      cases ht
    · rw [update_of_ne hEq] at ht
      exact hEq (hr.placed.cell_unique hi hcell ht hp.here)
  · rw [Finmap.lookup_erase_ne hkey, hr.entries]
    refine exists_congr fun i => and_congr_right fun hi => ?_
    by_cases hEq : i = slot MX (hash charExt name) d
    · subst hEq
      rw [update_self, hp.here]
      simp [Ne.symm hkey]
    · grind

/-- A safe `del_module` does what the map does. -/
lemma delModule_refines (hsafe : DelSafe charExt s name) :
    Refines charExt (call charExt s (.del name)).1 (mapCall m (.del name)).1 ∧
      (call charExt s (.del name)).2 = (mapCall m (.del name)).2 := by
  rw [call, mapCall]
  cases hfind : hashFind charExt s name with
  | none =>
    have hmem : name ∉ m := Finmap.lookup_eq_none.mp (hr.lookup_of_not_find hfind)
    grind [delModule_of_not_find]
  | some i =>
    have hmem : name ∈ m := Finmap.mem_of_lookup_eq_some (hr.lookup_of_find hfind)
    obtain ⟨d, hp, rfl⟩ := hashFind_eq_some.mp hfind
    rw [delModule_of_find hfind, if_pos hmem]
    exact ⟨hr.erase hsafe hp, rfl⟩

/-- After an unsafe `del_module` some other name of the map is not found. -/
lemma delModule_unsafe (hpassed : ¬DelSafe charExt s name) :
    ¬LookupsAgree charExt (call charExt s (.del name)).1 (mapCall m (.del name)).1 := by
  simp only [DelSafe, not_forall, not_le] at hpassed
  obtain ⟨i, hfind, other, hne, j, hfind', hlt⟩ := hpassed
  obtain ⟨d, hp, rfl⟩ := hashFind_eq_some.mp hfind'
  obtain ⟨e, he, hEq⟩ := exists_slot (hashFind_lt hfind)
  rw [← hEq, probeDistance_slot he, probeDistance_slot hp.lt] at hlt
  have hmem : name ∈ m := Finmap.mem_of_lookup_eq_some (hr.lookup_of_find hfind)
  intro hagree
  have hother := (hagree other).1
  rw [call, mapCall, delModule_of_find hfind, if_pos hmem, moduleLoaded, hashFind_eq] at hother
  -- The search for the other name ends at the emptied cell, and the map still has the name.
  rw [search_of_passed hp hlt hEq, Finmap.lookup_erase_ne hne, hr.lookup_of_find hfind'] at hother
  simp [findResult, locateResult, hEq] at hother

/-! ### Histories of calls -/

/-- From a table that represents a map on. -/
lemma agrees_iff (calls : List (Call R)) : Agrees charExt s m calls ↔ AllSafe charExt s calls := by
  induction calls generalizing s m with
  | nil => exact iff_of_true hr.lookupsAgree trivial
  | cons c calls ih =>
    rw [Agrees, AllSafe, and_iff_right hr.lookupsAgree]
    -- A call that keeps the two together leaves the rest of the history.
    have hstep : (Refines charExt (call charExt s c).1 (mapCall m c).1 ∧
        (call charExt s c).2 = (mapCall m c).2) → CallSafe charExt s c →
        ((call charExt s c).2 = (mapCall m c).2 ∧ Agrees charExt (call charExt s c).1 (mapCall m c).1 calls ↔
        CallSafe charExt s c ∧ AllSafe charExt (call charExt s c).1 calls) :=
      fun ⟨hr', hEq⟩ hsafe => by rw [and_iff_right hEq, and_iff_right hsafe, ih hr']
    cases c with
    | add name info => exact hstep (addModule_refines hr name info) trivial
    | get name =>
      exact hstep ⟨hr, by rw [call, mapCall, (hr.lookupsAgree name).2]⟩ trivial
    | loaded name =>
      exact hstep ⟨hr, by rw [call, mapCall, (hr.lookupsAgree name).1]⟩ trivial
    | del name =>
      by_cases hsafe : DelSafe charExt s name
      · exact hstep (delModule_refines hr hsafe) hsafe
      · refine iff_of_false (fun h => ?_) fun h => hsafe h.1
        have hlook : LookupsAgree charExt (call charExt s (.del name)).1
            (mapCall m (.del name)).1 := by
          cases calls with
          | nil => exact h.2
          | cons c calls => exact h.2.1
        exact delModule_unsafe hr hsafe hlook

end

/-- From the zeroed arrays on, a history of calls is answered as by a finite map exactly when no
`del_module` in it empties a cell that another live name was put behind. -/
theorem module_table_agrees_iff (charExt : BitVec 8 → BitVec 32) (calls : List (Call R)) :
    Agrees charExt Tables.init ∅ calls ↔ AllSafe charExt Tables.init calls :=
  agrees_iff refines_init calls

/-- The name `mod-add`. -/
def modAdd : Name := ⟨[0x6d, 0x6f, 0x64, 0x2d, 0x61, 0x64, 0x64], by decide, by decide⟩

/-- The name `mod77`, which has the same hash. -/
def mod77 : Name := ⟨[0x6d, 0x6f, 0x64, 0x37, 0x37], by decide, by decide⟩

/-- The table after a history of calls. -/
def run (charExt : BitVec 8 → BitVec 32) (s : Tables R) (calls : List (Call R)) : Tables R :=
  calls.foldl (fun s c => (call charExt s c).1) s

/-- The map after a history of calls. -/
def mapRun (m : ModMap R) (calls : List (Call R)) : ModMap R :=
  calls.foldl (fun m c => (mapCall m c).1) m

/-- Both names are added and `mod-add` is deleted. `mod77` was never deleted and is in the map, but
neither `module_loaded` nor `get_module` finds it, and a second `add_module` of it succeeds. -/
theorem module_table_loses_mod77 : let charExt : BitVec 8 → BitVec 32 := BitVec.signExtend 32
    let calls : List (Call ℕ) := [.add modAdd (some 1), .add mod77 (some 2), .del modAdd]
    (mapRun ∅ calls).lookup mod77 = some (some 2) ∧
      moduleLoaded charExt (run charExt Tables.init calls) mod77 = false ∧
      getModule charExt (run charExt Tables.init calls) mod77 = none ∧
      (call charExt (run charExt Tables.init calls) (.add mod77 (some 3))).2 = .status true := by
  decide +kernel

end UcoreKernel.ModManager
