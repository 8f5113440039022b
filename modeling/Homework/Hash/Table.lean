import Homework.Library.CString
import Homework.Library.LinearProbing

/-!
# The hash table

The table is an array of pointers to elements, each null or an element with a key and a count. A key
has its home at `hash_string(key) % capacity`; the hash is computed in 64-bit arithmetic that wraps
around, so it can be negative, and then so is the remainder. `get_element` searches from the home on
without wrapping around, `add_element` does wrap around, and `rehash` doubles the array and writes
every element at its new home, over any other that is there.

A use of an index outside the array is a fault. On indices inside the array the search of
`get_element` is the search of the library (`getLoop_eq`), the search of `add_element` ends at the
same free slot (`addLoop_eq`), and `rehash` writes the elements at their homes (`rehash_eq_ok`).
-/

set_option autoImplicit false
set_option relaxedAutoImplicit false

namespace Homework.Hash

open Homework.Library.LinearProbing

/-! ### `hash_string` -/

/-- The value of a `long long` after an overflow. -/
def wrapLong (value : ℤ) : ℤ := value.bmod (2 ^ 64)

/-- The value of an `int` after an overflow. -/
def wrapInt (value : ℤ) : ℤ := value.bmod (2 ^ 32)

/-- The loop of `hash_string`. A `char` is signed, and `'a'` is 97. -/
def hashLoop : List UInt8 → ℤ → ℤ → ℤ
  | [], hash, _ => hash
  | char :: rest, hash, pPow =>
    hashLoop rest (wrapLong (hash + (char.toInt8.toInt - 97 + 1).natAbs * pPow))
      (wrapLong (pPow * 53))

/-- `hash_string`. -/
def hashString (str : List UInt8) : ℤ := hashLoop str 0 1

/-- `hash_string(key) % capacity`: the remainder has the sign of the hash. -/
def homeIndex (capacity : ℕ) (key : List UInt8) : ℤ := (hashString key).tmod capacity

/-! ### The table -/

/-- `struct Element`. -/
structure Element where
  value : ℤ
  key : List UInt8
deriving DecidableEq, Repr

/-- `struct HashTable`, with its array. The field `load` is always 0.7. -/
structure HashTable where
  elements : ℕ → Option Element
  capacity : ℕ
  size : ℤ

/-- What the functions can do beside returning: use an index outside the array, or run forever. -/
inductive Fault where
  | slot (index : ℤ)
  | endless
deriving DecidableEq, Repr

/-- `init_table`. -/
def initTable : HashTable := ⟨fun _ ↦ none, 10, 0⟩

/-- `is_rehash_required`. For tables that fit into memory the comparison of the `double` values is
the exact one. -/
def isRehashRequired (table : HashTable) : Bool := 10 * table.size > 7 * table.capacity

/-- The loop of `get_element` from an index on. Gives the slot of the element, or nothing for
`NULL`. -/
def getLoop (table : HashTable) (key : List UInt8) (hash : ℤ) : Except Fault (Option ℕ) :=
  if 0 ≤ hash ∧ hash < table.capacity then
    match table.elements hash.toNat with
    | none => .ok none
    | some element =>
      if element.key = key then .ok (some hash.toNat) else getLoop table key (hash + 1)
  else .error (.slot hash)
termination_by (table.capacity - hash).toNat
decreasing_by omega

/-- `get_element`. -/
def getElement (table : HashTable) (key : List UInt8) : Except Fault (Option ℕ) :=
  getLoop table key (homeIndex table.capacity key)

/-- The loop of `add_element` from an index on, for a number of slots. It looks at the slots in
turn, so when it has looked at all of them and none is free it never ends. -/
def addLoop (table : HashTable) : ℕ → ℤ → Except Fault ℕ
  | 0, _ => .error .endless
  | rounds + 1, hash =>
    if 0 ≤ hash ∧ hash < table.capacity then
      match table.elements hash.toNat with
      | none => .ok hash.toNat
      | some _ => addLoop table rounds ((hash + 1).tmod table.capacity)
    else .error (.slot hash)

/-- A round of the loop of `rehash`. -/
def rehashStep (table : HashTable) (newCapacity : ℕ) (newElements : ℕ → Option Element) (i : ℕ) :
    Except Fault (ℕ → Option Element) :=
  match table.elements i with
  | none => .ok newElements
  | some element =>
    let hash := homeIndex newCapacity element.key
    if 0 ≤ hash ∧ hash < newCapacity then
      .ok (Function.update newElements hash.toNat (some element))
    else .error (.slot hash)

/-- `rehash`. -/
def rehash (table : HashTable) : Except Fault HashTable :=
  if table.capacity = 0 then .ok table
  else
    let newCapacity := table.capacity * 2
    match (List.range table.capacity).foldlM (rehashStep table newCapacity) fun _ ↦ none with
    | .ok newElements => .ok { table with capacity := newCapacity, elements := newElements }
    | .error fault => .error fault

/-- `add_element`. -/
def addElement (table : HashTable) (key : List UInt8) (value : ℤ) : Except Fault HashTable :=
  match addLoop table table.capacity (homeIndex table.capacity key) with
  | .error fault => .error fault
  | .ok hash =>
    let table := { table with
      elements := Function.update table.elements hash (some ⟨value, key⟩)
      size := table.size + 1 }
    if isRehashRequired table then rehash table else .ok table

/-! ### Homes -/

/-- The home slot of a key whose home index is not negative. -/
def homeOf (capacity : ℕ) (key : List UInt8) : ℕ := (homeIndex capacity key).toNat

theorem homeIndex_lt {capacity : ℕ} (hcapacity : 0 < capacity) (key : List UInt8) :
    homeIndex capacity key < capacity :=
  Int.tmod_lt_of_pos _ (Int.natCast_pos.mpr hcapacity)

theorem homeOf_lt {capacity : ℕ} (hcapacity : 0 < capacity) (key : List UInt8) :
    homeOf capacity key < capacity := by
  have hlt := homeIndex_lt hcapacity key
  unfold homeOf
  omega

theorem natCast_homeOf {capacity : ℕ} {key : List UInt8} (hhome : 0 ≤ homeIndex capacity key) :
    (homeOf capacity key : ℤ) = homeIndex capacity key :=
  Int.toNat_of_nonneg hhome

/-! ### The searches -/

/-- What `get_element` makes of a search. -/
def ofProbe (capacity : ℕ) : Probe → Except Fault (Option ℕ)
  | .found slot => .ok (some slot)
  | .free _ => .ok none
  | .off => .error (.slot capacity)

/-- A loop that looks at one slot in each round, and faults behind the array, is the search of the
library. -/
theorem loop_eq_ofProbe {α K : Type*} [DecidableEq K] {key : α → K} {capacity : ℕ}
    {slots : ℕ → Option α} {sought : K} {loop : ℤ → Except Fault (Option ℕ)}
    (hfree : ∀ index : ℕ, index < capacity → slots index = none → loop index = .ok none)
    (hentry : ∀ (index : ℕ) (entry : α), index < capacity → slots index = some entry →
      loop index = if key entry = sought then .ok (some index) else loop ((index : ℤ) + 1))
    (hend : loop capacity = .error (.slot capacity)) {index : ℕ} (hindex : index ≤ capacity) :
    loop index = ofProbe capacity (probe key capacity slots sought index) := by
  induction index using probe.induct key capacity slots sought with
  | case1 index hlt hnone =>
    rw [hfree index hlt hnone, probe, if_pos hlt, hnone]
    rfl
  | case2 index hlt entry hsome hkey =>
    rw [hentry index entry hlt hsome, if_pos hkey, probe, if_pos hlt, hsome]
    simp only [if_pos hkey, ofProbe]
  | case3 index hlt entry hsome hkey ih =>
    rw [hentry index entry hlt hsome, if_neg hkey, probe, if_pos hlt, hsome]
    simp only [if_neg hkey]
    exact ih hlt
  | case4 index hlt =>
    obtain rfl : index = capacity := le_antisymm hindex (not_lt.mp hlt)
    rw [hend, probe, if_neg hlt]
    rfl

/-- An index inside the array. -/
theorem index_inside {index capacity : ℕ} (hindex : index < capacity) :
    0 ≤ (index : ℤ) ∧ (index : ℤ) < capacity :=
  ⟨Int.natCast_nonneg index, Int.ofNat_lt.mpr hindex⟩

/-- Inside the array, the loop of `get_element` is the search of the library. -/
theorem getLoop_eq (table : HashTable) (key : List UInt8) {index : ℕ}
    (hindex : index ≤ table.capacity) : getLoop table key index =
      ofProbe table.capacity (probe Element.key table.capacity table.elements key index) := by
  refine loop_eq_ofProbe (fun index hlt hnone ↦ ?_) (fun index element hlt helement ↦ ?_) ?_ hindex
  · rw [getLoop, if_pos (index_inside hlt), Int.toNat_natCast, hnone]
  · rw [getLoop, if_pos (index_inside hlt), Int.toNat_natCast, helement]
  · rw [getLoop, if_neg fun hinside ↦ lt_irrefl _ hinside.2]

/-- `get_element` of a key whose home index is not negative. -/
theorem getElement_eq {table : HashTable} {key : List UInt8} (hcapacity : 0 < table.capacity)
    (hhome : 0 ≤ homeIndex table.capacity key) : getElement table key =
      ofProbe table.capacity (probe Element.key table.capacity table.elements key
        (homeOf table.capacity key)) := by
  rw [getElement, ← natCast_homeOf hhome, getLoop_eq table key (homeOf_lt hcapacity key).le]

/-- `get_element` faults on a key whose home index is negative. -/
theorem getElement_of_neg {table : HashTable} {key : List UInt8}
    (hhome : homeIndex table.capacity key < 0) :
    getElement table key = .error (.slot (homeIndex table.capacity key)) := by
  rw [getElement, getLoop, if_neg fun hinside ↦ absurd hinside.1 (not_le.mpr hhome)]

/-- The element that the loop of `get_element` returns has the key. -/
theorem of_getLoop_eq_some {table : HashTable} {key : List UInt8} {hash : ℤ} {slot : ℕ}
    (hget : getLoop table key hash = .ok (some slot)) :
    ∃ element, table.elements slot = some element ∧ element.key = key := by
  induction hash using getLoop.induct table key with
  | case1 hash hinside hfree =>
    rw [getLoop, if_pos hinside, hfree] at hget
    cases hget
  | case2 hash hinside element helement hkey =>
    rw [getLoop, if_pos hinside, helement] at hget
    simp only [if_pos hkey, Except.ok.injEq, Option.some.injEq] at hget
    exact ⟨element, hget ▸ helement, hkey⟩
  | case3 hash hinside element helement hkey ih =>
    rw [getLoop, if_pos hinside, helement] at hget
    simp only [if_neg hkey] at hget
    exact ih hget
  | case4 hash houtside =>
    rw [getLoop, if_neg houtside] at hget
    cases hget

/-- The loop of `add_element` ends at the first free slot. -/
theorem addLoop_eq {table : HashTable} {slot : ℕ} (hslot : slot < table.capacity)
    (hfree : table.elements slot = none) {rounds index : ℕ} (hindex : index ≤ slot)
    (hoccupied : Occupied table.elements index slot) (hrounds : slot < index + rounds) :
    addLoop table rounds index = .ok slot := by
  induction rounds generalizing index with
  | zero => omega
  | succ rounds ih =>
    have hinside : 0 ≤ (index : ℤ) ∧ (index : ℤ) < table.capacity := by omega
    rw [addLoop, if_pos hinside, Int.toNat_natCast]
    rcases hindex.eq_or_lt with rfl | hbefore
    · rw [hfree]
    · rcases Option.ne_none_iff_exists'.mp (hoccupied index le_rfl hbefore) with
        ⟨element, helement⟩
      have hnext : ((index : ℤ) + 1).tmod table.capacity = (index + 1 : ℕ) := by
        rw [Int.tmod_eq_of_lt (by omega) (by omega)]
        rfl
      rw [helement]
      simp only [hnext]
      exact ih hbefore (fun place hfirst ↦ hoccupied place (Nat.le_of_succ_le hfirst)) (by omega)

/-! ### Growing -/

/-- The elements of a table, in the order of the array. -/
def entries (table : HashTable) : List Element :=
  (List.range table.capacity).filterMap table.elements

theorem mem_entries {table : HashTable} {element : Element} : element ∈ entries table ↔
    ∃ slot, slot < table.capacity ∧ table.elements slot = some element := by
  simp only [entries, List.mem_filterMap, List.mem_range]

/-- The loop of `rehash` writes the elements at their homes. -/
theorem foldlM_rehashStep_eq_ok (table : HashTable) {newCapacity : ℕ} (hcapacity : 0 < newCapacity)
    {indices : List ℕ} (written : List Element)
    (hhome : ∀ element ∈ indices.filterMap table.elements, 0 ≤ homeIndex newCapacity element.key) :
    indices.foldlM (rehashStep table newCapacity)
        (scatter Element.key (homeOf newCapacity) written) =
      .ok (scatter Element.key (homeOf newCapacity)
        (written ++ indices.filterMap table.elements)) := by
  induction indices generalizing written with
  | nil =>
    rw [List.filterMap_nil, List.append_nil]
    rfl
  | cons i rest ih =>
    rw [List.foldlM_cons, rehashStep]
    rcases helement : table.elements i with _ | element
    · rw [List.filterMap_cons_none helement] at hhome ⊢
      exact ih written hhome
    · rw [List.filterMap_cons_some helement] at hhome ⊢
      have hfirst := hhome element List.mem_cons_self
      simp only [if_pos (And.intro hfirst (homeIndex_lt hcapacity element.key))]
      have hrest := ih (written ++ [element]) fun other hother ↦
        hhome other (List.mem_cons_of_mem _ hother)
      rw [scatter_append_singleton, List.append_assoc] at hrest
      exact hrest

/-- The loop of `rehash` faults on a negative home index. -/
theorem foldlM_rehashStep_eq_error (table : HashTable) {newCapacity : ℕ} {indices : List ℕ}
    (newElements : ℕ → Option Element) {element : Element}
    (helement : element ∈ indices.filterMap table.elements)
    (hhome : homeIndex newCapacity element.key < 0) :
    ∃ fault, indices.foldlM (rehashStep table newCapacity) newElements = .error fault := by
  induction indices generalizing newElements with
  | nil => cases helement
  | cons i rest ih =>
    rw [List.foldlM_cons]
    rcases hstep : rehashStep table newCapacity newElements i with fault | next
    · exact ⟨fault, rfl⟩
    · rcases hat : table.elements i with _ | first
      · rw [List.filterMap_cons_none hat] at helement
        exact ih next helement
      · rw [List.filterMap_cons_some hat] at helement
        rcases List.mem_cons.mp helement with rfl | hrest
        · rw [rehashStep, hat] at hstep
          simp only [if_neg fun hinside : 0 ≤ homeIndex newCapacity element.key ∧ _ ↦
            absurd hinside.1 (not_le.mpr hhome), reduceCtorEq] at hstep
        · exact ih next hrest

/-- `rehash` of a table whose new home indices are not negative. -/
theorem rehash_eq_ok {table : HashTable} (hcapacity : 0 < table.capacity)
    (hhome : ∀ element ∈ entries table, 0 ≤ homeIndex (table.capacity * 2) element.key) :
    rehash table = .ok { table with
      capacity := table.capacity * 2
      elements := scatter Element.key (homeOf (table.capacity * 2)) (entries table) } := by
  have hloop := foldlM_rehashStep_eq_ok table (Nat.mul_pos hcapacity Nat.two_pos) [] hhome
  rw [rehash, if_neg hcapacity.ne']
  simp only [show (fun _ ↦ none : ℕ → Option Element) =
    scatter Element.key (homeOf (table.capacity * 2)) [] from rfl, hloop]
  rfl

/-- `rehash` faults on a negative new home index. -/
theorem rehash_eq_error {table : HashTable} {element : Element} (helement : element ∈ entries table)
    (hhome : homeIndex (table.capacity * 2) element.key < 0) :
    ∃ fault, rehash table = .error fault := by
  obtain ⟨slot, hslot, _⟩ := mem_entries.mp helement
  obtain ⟨fault, hloop⟩ := foldlM_rehashStep_eq_error table (fun _ ↦ none) helement hhome
  refine ⟨fault, ?_⟩
  rw [rehash, if_neg (Nat.ne_of_gt (Nat.zero_lt_of_lt hslot))]
  simp only [hloop]

/-- What `rehash` has done when it returns. -/
theorem of_rehash_eq_ok {table grown : HashTable} (hcapacity : 0 < table.capacity)
    (hgrown : rehash table = .ok grown) :
    (∀ element ∈ entries table, 0 ≤ homeIndex (table.capacity * 2) element.key) ∧
      grown = { table with
        capacity := table.capacity * 2
        elements := scatter Element.key (homeOf (table.capacity * 2)) (entries table) } := by
  have hhome : ∀ element ∈ entries table, 0 ≤ homeIndex (table.capacity * 2) element.key := by
    intro element helement
    by_contra hneg
    obtain ⟨fault, hfault⟩ := rehash_eq_error helement (not_le.mp hneg)
    rw [hfault] at hgrown
    cases hgrown
  refine ⟨hhome, ?_⟩
  rw [rehash_eq_ok hcapacity hhome] at hgrown
  exact (Except.ok.inj hgrown).symm

end Homework.Hash
