import Homework.Hash.WordCount

/-!
# When the count is right

The table goes through two kinds of states. While every new word has been placeable, it has the
exact content of the words read (`Content`): a probing table of the distinct words with their
numbers of occurrences. A word seen before is found and its value goes up (`Content.increment`), a
new word is stored in the free slot that its search ends at (`Content.insert`), and growing keeps
the content when the new homes are separate (`Content.rehash`).

When a new word is not placeable, either an index outside the array is used or an element is lost,
and then some word is counted too low (`Undercounted`), which no further word repairs
(`Undercounted.countWord`). So the words alone decide how the run ends (`countWords_cases`), and the
count is right exactly when every new word is placeable, no word holds a zero byte, and no word
occurs more often than an `int` can say (`countWords_correct_iff`).
-/

set_option autoImplicit false
set_option relaxedAutoImplicit false

namespace Homework.Hash

open Homework.Library.CString Homework.Library.LinearProbing

/-! ### The exact content -/

/-- The table holds exactly the words read, each once, with its number of occurrences as an `int`.
-/
structure Content (words : List (List UInt8)) (table : HashTable) : Prop where
  capacity_pos : 0 < table.capacity
  probing : Probing Element.key (homeOf table.capacity) table.capacity table.elements
  home_nonneg : ∀ word ∈ words, 0 ≤ homeIndex table.capacity word
  stored_iff : ∀ word, word ∈ words ↔ Stored Element.key table.elements word
  value_eq : ∀ {slot element}, table.elements slot = some element →
    element.value = wrapInt (words.count element.key)
  size_eq : table.size = (distinctWords words).length

theorem content_initTable : Content [] initTable where
  capacity_pos := by decide
  probing := probing_empty
  home_nonneg _ hword := nomatch hword
  stored_iff word := by
    refine ⟨fun hword ↦ absurd hword List.not_mem_nil, fun hstored ↦ ?_⟩
    obtain ⟨_, _, hentry, _⟩ := hstored
    cases hentry
  value_eq hentry := nomatch hentry
  size_eq := rfl

theorem count_append_self (words : List (List UInt8)) (word : List UInt8) :
    (words ++ [word]).count word = words.count word + 1 := by
  rw [List.count_append, List.count_singleton_self]

theorem count_append_of_ne (words : List (List UInt8)) {word other : List UInt8}
    (hne : other ≠ word) : (words ++ [word]).count other = words.count other := by
  have hlast : [word].count other = 0 :=
    List.count_eq_zero_of_not_mem fun hmem ↦ hne (List.eq_of_mem_singleton hmem)
  rw [List.count_append, hlast, Nat.add_zero]

/-- Some word is counted too low: every element with it as its key has the value of a smaller
count. -/
def Undercounted (words : List (List UInt8)) (table : HashTable) : Prop :=
  ∃ key ∈ words, ∀ slot element, table.elements slot = some element → element.key = key →
    ∃ count < words.count key, element.value = wrapInt count

namespace Content

variable {words : List (List UInt8)} {table : HashTable} (htable : Content words table)
include htable

theorem mem_of_elements {slot : ℕ} {element : Element}
    (helement : table.elements slot = some element) : element.key ∈ words :=
  (htable.stored_iff _).mpr ⟨slot, element, helement, rfl⟩

/-- A word seen before is found. -/
theorem getElement_of_mem {word : List UInt8} (hword : word ∈ words) :
    ∃ slot element, table.elements slot = some element ∧ element.key = word ∧
      getElement table word = .ok (some slot) := by
  obtain ⟨slot, element, helement, rfl⟩ := (htable.stored_iff word).mp hword
  refine ⟨slot, element, helement, rfl, ?_⟩
  rw [getElement_eq htable.capacity_pos (htable.home_nonneg _ hword),
    htable.probing.probe_eq_found helement]
  rfl

/-- Adding 1 to the value of a word seen before counts it once more. -/
theorem increment {slot : ℕ} {element : Element} (helement : table.elements slot = some element) :
    Content (words ++ [element.key]) (incrementValue table slot) := by
  have hword := htable.mem_of_elements helement
  have hmem : ∀ word, word ∈ words ++ [element.key] ↔ word ∈ words := by
    intro word
    rw [List.mem_append, List.mem_singleton, or_iff_left_of_imp]
    rintro rfl
    exact hword
  have hincrement : incrementValue table slot = { table with
      elements := Function.update table.elements slot
        (some { element with value := wrapInt (element.value + 1) }) } := by
    rw [incrementValue, helement]
  rw [hincrement]
  refine ⟨htable.capacity_pos, htable.probing.replace helement rfl, fun word hin ↦ ?_,
    fun word ↦ ?_, fun {place other} hother ↦ ?_, ?_⟩
  · exact htable.home_nonneg word ((hmem word).mp hin)
  · rw [hmem, htable.stored_iff]
    exact (stored_replace helement (by rfl) word).symm
  · rcases update_eq_some_iff.mp hother with ⟨rfl, rfl⟩ | ⟨hne, hold⟩
    · show wrapInt (element.value + 1) = wrapInt ((words ++ [element.key]).count element.key : ℕ)
      rw [htable.value_eq helement, count_append_self, wrapInt_add_one]
      rfl
    · have hkey : other.key ≠ element.key := fun hsame ↦
        hne (htable.probing.distinct hold helement hsame)
      rw [count_append_of_ne words hkey]
      exact htable.value_eq hold
  · rw [distinctWords_of_mem hword]
    exact htable.size_eq

/-- A new word whose home is not negative is looked up without a fault exactly when its home fits in
with those of the words held. -/
theorem exists_free_iff {word : List UInt8} (hword : word ∉ words) :
    (∃ slot, probe Element.key table.capacity table.elements word (homeOf table.capacity word) =
      .free slot) ↔
      Fits (homeOf table.capacity) table.capacity (distinctWords words ++ [word]) := by
  have hkeys : ∀ sought, sought ∈ distinctWords words ↔ Stored Element.key table.elements sought :=
    fun sought ↦ mem_distinctWords.trans (htable.stored_iff sought)
  exact htable.probing.exists_probe_eq_free_iff (nodup_distinctWords words) hkeys
    ⟨1, word⟩ fun hmem ↦ hword (mem_distinctWords.mp hmem)

/-- The table with a new word stored in the free slot that its search ends at. -/
theorem insert {word : List UInt8} (hword : word ∉ words)
    (hhome : 0 ≤ homeIndex table.capacity word) {slot : ℕ}
    (hprobe : probe Element.key table.capacity table.elements word (homeOf table.capacity word) =
      .free slot) :
    Content (words ++ [word]) { table with
      elements := Function.update table.elements slot (some ⟨1, word⟩)
      size := table.size + 1 } := by
  have hfree := (of_probe_eq_free hprobe).2.2.1
  have hnew : ¬ Stored Element.key table.elements word := fun hstored ↦
    hword ((htable.stored_iff word).mpr hstored)
  refine ⟨htable.capacity_pos, htable.probing.insert ⟨1, word⟩ hnew hprobe,
    fun other hother ↦ ?_, fun other ↦ ?_, fun {place element} helement ↦ ?_, ?_⟩
  · rcases List.mem_append.mp hother with hold | hlast
    · exact htable.home_nonneg other hold
    · exact List.eq_of_mem_singleton hlast ▸ hhome
  · rw [stored_update_free hfree, List.mem_append, List.mem_singleton, htable.stored_iff, or_comm]
  · rcases update_eq_some_iff.mp helement with ⟨rfl, rfl⟩ | ⟨_, hold⟩
    · show (1 : ℤ) = wrapInt ((words ++ [word]).count word : ℕ)
      rw [count_append_self, List.count_eq_zero_of_not_mem hword]
      exact wrapInt_one.symm
    · have hkey : element.key ≠ word := fun hsame ↦ hword (hsame ▸ htable.mem_of_elements hold)
      rw [count_append_of_ne words hkey]
      exact htable.value_eq hold
  · rw [distinctWords_of_notMem hword, List.length_append, List.length_singleton]
    show table.size + 1 = _
    rw [htable.size_eq]
    rfl

theorem mem_entries_iff {element : Element} :
    element ∈ entries table ↔ ∃ slot, table.elements slot = some element := by
  rw [mem_entries]
  exact ⟨fun ⟨slot, _, h⟩ ↦ ⟨slot, h⟩, fun ⟨slot, h⟩ ↦ ⟨slot, htable.probing.lt_capacity h, h⟩⟩

/-- The words read are the keys of the elements. -/
theorem stored_iff_entries (word : List UInt8) :
    word ∈ words ↔ ∃ element ∈ entries table, element.key = word := by
  rw [htable.stored_iff]
  constructor
  · rintro ⟨slot, element, hslot, hkey⟩
    exact ⟨element, htable.mem_entries_iff.mpr ⟨slot, hslot⟩, hkey⟩
  · rintro ⟨element, helement, hkey⟩
    obtain ⟨slot, hslot⟩ := htable.mem_entries_iff.mp helement
    exact ⟨slot, element, hslot, hkey⟩

/-- Growing keeps the content when the homes of the words are separate in the new array. -/
theorem rehash (hseparate : Separate (table.capacity * 2) (distinctWords words)) :
    ∃ grown, rehash table = .ok grown ∧ Content words grown ∧
      grown.capacity = table.capacity * 2 := by
  have hpos : 0 < table.capacity * 2 := Nat.mul_pos htable.capacity_pos Nat.two_pos
  have hkeys : ∀ element ∈ entries table, element.key ∈ distinctWords words := by
    intro element helement
    exact mem_distinctWords.mpr ((htable.stored_iff_entries _).mpr ⟨element, helement, rfl⟩)
  have hinj : ∀ first ∈ entries table, ∀ second ∈ entries table,
      homeOf (table.capacity * 2) first.key = homeOf (table.capacity * 2) second.key →
        first = second := by
    intro first hfirst second hsecond hsame
    have hkey := hseparate.eq_of_homeOf_eq (hkeys first hfirst) (hkeys second hsecond) hsame
    obtain ⟨slot, hslot⟩ := htable.mem_entries_iff.mp hfirst
    obtain ⟨slot', hslot'⟩ := htable.mem_entries_iff.mp hsecond
    rw [htable.probing.distinct hslot hslot' hkey, hslot'] at hslot
    exact (Option.some.inj hslot).symm
  refine ⟨_, rehash_eq_ok htable.capacity_pos fun element helement ↦
    hseparate.home_nonneg _ (hkeys element helement), ?_, rfl⟩
  refine ⟨hpos, probing_scatter fun element _ ↦ homeOf_lt hpos element.key, fun word hword ↦ ?_,
    fun word ↦ ?_, fun {slot element} helement ↦ ?_, htable.size_eq⟩
  · exact hseparate.home_nonneg word (mem_distinctWords.mpr hword)
  · rw [stored_scatter hinj, htable.stored_iff_entries]
  · obtain ⟨slot', hslot'⟩ := htable.mem_entries_iff.mp (of_scatter_eq_some helement).1
    exact htable.value_eq hslot'

/-- Growing faults or loses an element when the homes of the words are not separate. -/
theorem undercounted_of_rehash (hseparate : ¬ Separate (table.capacity * 2) (distinctWords words))
    {grown : HashTable} (hgrown : Hash.rehash table = .ok grown) : Undercounted words grown := by
  obtain ⟨hhome, rfl⟩ := of_rehash_eq_ok htable.capacity_pos hgrown
  have hwords : ∀ word ∈ words, 0 ≤ homeIndex (table.capacity * 2) word := by
    intro word hword
    obtain ⟨element, helement, rfl⟩ := (htable.stored_iff_entries word).mp hword
    exact hhome element helement
  by_contra hnot
  -- every word is still stored, so no two of them have the same home
  have hstored : ∀ word ∈ words, Stored Element.key
      (scatter Element.key (homeOf (table.capacity * 2)) (entries table)) word := by
    intro word hword
    by_contra hlost
    exact hnot ⟨word, hword, fun slot element hslot hkey ↦
      absurd ⟨slot, element, hslot, hkey⟩ hlost⟩
  refine hseparate ⟨fun word hword ↦ hwords word (mem_distinctWords.mp hword), ?_⟩
  intro first hfirst second hsecond hsame
  exact eq_of_stored_scatter (congrArg Int.toNat hsame)
    (hstored first (mem_distinctWords.mp hfirst)) (hstored second (mem_distinctWords.mp hsecond))

end Content

/-! ### A new word -/

/-- The exact content, in an array of the capacity that the number of words calls for. -/
structure Exact (words : List (List UInt8)) (table : HashTable) : Prop
    extends Content words table where
  capacity_eq : table.capacity = capacityAt (distinctWords words).length

namespace Exact

variable {words : List (List UInt8)} {table : HashTable} (htable : Exact words table)
include htable

/-- A word seen before is counted. -/
theorem countWord_of_mem {word : List UInt8} (hzero : (0 : UInt8) ∉ word) (hword : word ∈ words) :
    ∃ table', countWord table word = .ok table' ∧ Exact (words ++ [word]) table' := by
  obtain ⟨slot, element, helement, rfl, hget⟩ := htable.getElement_of_mem hword
  refine ⟨incrementValue table slot, ?_, htable.increment helement, ?_⟩
  · rw [countWord, cString_eq_self hzero, hget]
  · rw [distinctWords_of_mem hword, ← htable.capacity_eq, incrementValue, helement]

/-- The search of a new word that does not fit in runs off the end of the array. -/
theorem getElement_of_not_fits {word : List UInt8} (hword : word ∉ words)
    (hhome : 0 ≤ homeIndex table.capacity word)
    (hfits : ¬ Fits (homeOf table.capacity) table.capacity (distinctWords words ++ [word])) :
    getElement table word = .error (.slot table.capacity) := by
  rw [getElement_eq htable.capacity_pos hhome]
  rcases hprobe : probe Element.key table.capacity table.elements word
    (homeOf table.capacity word) with slot | slot | _
  · obtain ⟨-, -, element, helement, rfl⟩ := of_probe_eq_found hprobe
    exact absurd (htable.mem_of_elements helement) hword
  · exact absurd ((htable.exists_free_iff hword).mp ⟨slot, hprobe⟩) hfits
  · rfl

/-- A new word whose search ends at a free slot is stored there, and then the array may grow. -/
theorem countWord_of_free {word : List UInt8} (hzero : (0 : UInt8) ∉ word)
    (hhome : 0 ≤ homeIndex table.capacity word) {slot : ℕ}
    (hprobe : probe Element.key table.capacity table.elements word (homeOf table.capacity word) =
      .free slot) :
    countWord table word =
      if 10 * ((distinctWords words).length + 1) > 7 * table.capacity then
        Hash.rehash { table with
          elements := Function.update table.elements slot (some ⟨1, word⟩)
          size := table.size + 1 }
      else .ok { table with
        elements := Function.update table.elements slot (some ⟨1, word⟩)
        size := table.size + 1 } := by
  obtain ⟨hle, hslot, hfree, hforeign⟩ := of_probe_eq_free hprobe
  have hadd : addLoop table table.capacity (homeIndex table.capacity word) = .ok slot := by
    rw [← natCast_homeOf hhome]
    exact addLoop_eq hslot hfree hle hforeign.occupied (hslot.trans_le (Nat.le_add_left ..))
  have hrequired : (10 * (table.size + 1) > 7 * (table.capacity : ℤ)) ↔
      10 * ((distinctWords words).length + 1) > 7 * table.capacity := by
    rw [htable.size_eq]
    omega
  rw [countWord, cString_eq_self hzero, getElement_eq htable.capacity_pos hhome, hprobe]
  simp only [ofProbe, addElement, hadd, isRehashRequired, decide_eq_true_eq, hrequired]

/-- A new word is counted when it is placeable, and otherwise there is a fault or an element is
lost. -/
theorem countWord_of_notMem {word : List UInt8} (hzero : (0 : UInt8) ∉ word)
    (hword : word ∉ words) :
    (Placeable (distinctWords words) word ∧
        ∃ table', countWord table word = .ok table' ∧ Exact (words ++ [word]) table') ∨
      (¬ Placeable (distinctWords words) word ∧
        ∀ table', countWord table word = .ok table' → Undercounted (words ++ [word]) table') := by
  have hcapacity := htable.capacity_eq
  by_cases hhome : 0 ≤ homeIndex table.capacity word
  swap
  · refine Or.inr ⟨fun hplace ↦ hhome (hcapacity ▸ hplace.home_nonneg), fun table' hok ↦ ?_⟩
    rw [countWord, cString_eq_self hzero, getElement_of_neg (not_le.mp hhome)] at hok
    cases hok
  by_cases hfits : Fits (homeOf table.capacity) table.capacity (distinctWords words ++ [word])
  swap
  · refine Or.inr ⟨fun hplace ↦ hfits (hcapacity ▸ hplace.fits), fun table' hok ↦ ?_⟩
    rw [countWord, cString_eq_self hzero, htable.getElement_of_not_fits hword hhome hfits] at hok
    cases hok
  obtain ⟨slot, hprobe⟩ := (htable.exists_free_iff hword).mpr hfits
  have hcount := htable.countWord_of_free hzero hhome hprobe
  have hinsert := htable.insert hword hhome hprobe
  have hdistinct := distinctWords_of_notMem hword
  have hlength : (distinctWords (words ++ [word])).length = (distinctWords words).length + 1 := by
    rw [hdistinct, List.length_append, List.length_singleton]
  by_cases hgrow : 10 * ((distinctWords words).length + 1) > 7 * table.capacity
  · rw [if_pos hgrow] at hcount
    by_cases hseparate : Separate (table.capacity * 2) (distinctWords words ++ [word])
    · obtain ⟨grown, hgrown, hcontent, hdouble⟩ := hinsert.rehash (hdistinct ▸ hseparate)
      refine Or.inl ⟨⟨hcapacity ▸ hhome, hcapacity ▸ hfits, fun _ ↦ hcapacity ▸ hseparate⟩, grown,
        hcount.trans hgrown, hcontent, ?_⟩
      rw [hlength, capacityAt, ← hcapacity, if_pos hgrow, hdouble]
    · refine Or.inr ⟨fun hplace ↦ hseparate ?_, fun table' hok ↦ ?_⟩
      · exact hcapacity ▸ hplace.separate (hcapacity ▸ hgrow)
      · exact hinsert.undercounted_of_rehash (hdistinct ▸ hseparate) (hcount.symm.trans hok)
  · rw [if_neg hgrow] at hcount
    refine Or.inl ⟨⟨hcapacity ▸ hhome, hcapacity ▸ hfits, fun hmust ↦
      absurd (hcapacity ▸ hmust) hgrow⟩, _, hcount, hinsert, ?_⟩
    rw [hlength, capacityAt, ← hcapacity, if_neg hgrow]

end Exact

/-! ### A lost element stays lost -/

/-- Growing moves elements only. -/
theorem elements_of_rehash {table grown : HashTable} (hgrown : rehash table = .ok grown) {slot : ℕ}
    {element : Element} (helement : grown.elements slot = some element) :
    ∃ place, table.elements place = some element := by
  rcases Nat.eq_zero_or_pos table.capacity with hzero | hpos
  · rw [rehash, if_pos hzero] at hgrown
    obtain rfl := Except.ok.inj hgrown
    exact ⟨slot, helement⟩
  · obtain ⟨_, rfl⟩ := of_rehash_eq_ok hpos hgrown
    obtain ⟨place, _, hplace⟩ := mem_entries.mp (of_scatter_eq_some helement).1
    exact ⟨place, hplace⟩

/-- Storing an element adds no other. -/
theorem elements_of_addElement {table table' : HashTable} {key : List UInt8} {value : ℤ}
    (hadd : addElement table key value = .ok table') {slot : ℕ} {element : Element}
    (helement : table'.elements slot = some element) :
    (∃ place, table.elements place = some element) ∨ element = ⟨value, key⟩ := by
  rcases hloop : addLoop table table.capacity (homeIndex table.capacity key) with fault | free
  · simp only [addElement, hloop, reduceCtorEq] at hadd
  · simp only [addElement, hloop] at hadd
    have hinsert : ∃ place, Function.update table.elements free (some ⟨value, key⟩) place =
        some element := by
      split_ifs at hadd with hrequired
      · exact elements_of_rehash hadd helement
      · obtain rfl := Except.ok.inj hadd
        exact ⟨slot, helement⟩
    obtain ⟨place, hplace⟩ := hinsert
    rcases update_eq_some_iff.mp hplace with ⟨_, rfl⟩ | ⟨_, hold⟩
    · exact Or.inr rfl
    · exact Or.inl ⟨place, hold⟩

/-- An element after a word is an element before it, one of the word with its value up by 1, or a
new one of the word. -/
theorem elements_of_countWord {table table' : HashTable} {word : List UInt8}
    (hcount : countWord table word = .ok table') {slot : ℕ} {element : Element}
    (helement : table'.elements slot = some element) :
    (∃ place, table.elements place = some element) ∨
      (∃ place old, table.elements place = some old ∧ old.key = cString word ∧
        element = ⟨wrapInt (old.value + 1), cString word⟩) ∨
      element = ⟨1, cString word⟩ := by
  rcases hget : getElement table (cString word) with fault | _ | found
  · simp only [countWord, hget, reduceCtorEq] at hcount
  · simp only [countWord, hget] at hcount
    exact (elements_of_addElement hcount helement).imp_right Or.inr
  · simp only [countWord, hget, Except.ok.injEq] at hcount
    obtain ⟨old, hold, hkey⟩ := of_getLoop_eq_some hget
    rw [← hcount, incrementValue, hold] at helement
    rcases update_eq_some_iff.mp helement with ⟨_, rfl⟩ | ⟨_, hother⟩
    · exact Or.inr (Or.inl ⟨found, old, hold, hkey, hkey ▸ rfl⟩)
    · exact Or.inl ⟨slot, hother⟩

/-- A word counted too low stays so. -/
theorem Undercounted.countWord {words : List (List UInt8)} {table table' : HashTable}
    (htable : Undercounted words table) {word : List UInt8} (hzero : (0 : UInt8) ∉ word)
    (hcount : countWord table word = .ok table') : Undercounted (words ++ [word]) table' := by
  obtain ⟨key, hkey, hlow⟩ := htable
  refine ⟨key, List.mem_append_left _ hkey, fun slot element helement hsame ↦ ?_⟩
  have hmore : words.count key ≤ (words ++ [word]).count key := by
    rw [List.count_append]
    exact Nat.le_add_right ..
  rcases elements_of_countWord hcount helement with
    ⟨place, hold⟩ | ⟨place, old, hold, holdKey, rfl⟩ | rfl
  · obtain ⟨count, hcountLt, hvalue⟩ := hlow place element hold hsame
    exact ⟨count, hcountLt.trans_le hmore, hvalue⟩
  · obtain ⟨count, hcountLt, hvalue⟩ := hlow place old hold (holdKey.trans hsame)
    have hword : word = key := (cString_eq_self hzero).symm.trans hsame
    refine ⟨count + 1, ?_, ?_⟩
    · rw [hword, count_append_self]
      exact Nat.succ_lt_succ hcountLt
    · show wrapInt (old.value + 1) = wrapInt ((count + 1 : ℕ) : ℤ)
      rw [hvalue, wrapInt_add_one]
      rfl
  · have hword : word = key := (cString_eq_self hzero).symm.trans hsame
    refine ⟨1, ?_, wrapInt_one.symm⟩
    rw [hword, count_append_self]
    exact Nat.succ_lt_succ (List.count_pos_iff.mpr hkey)

/-- A table that counts a word too low does not hold the count. -/
theorem Undercounted.not_counts {words : List (List UInt8)} {table : HashTable}
    (htable : Undercounted words table) : ¬ Counts words table := by
  intro hcounts
  obtain ⟨key, hkey, hlow⟩ := htable
  obtain ⟨slot, _, helement, _⟩ := hcounts.stored key hkey
  obtain ⟨count, hcountLt, hvalue⟩ := hlow slot _ helement rfl
  have hle := wrapInt_natCast_le count
  have hequal : (words.count key : ℤ) = wrapInt count := hvalue
  omega

/-! ### The whole run -/

/-- Every key of the table is a C string. -/
theorem zero_notMem_of_countWords {words : List (List UInt8)} {table : HashTable}
    (hrun : countWords words = .ok table) {slot : ℕ} {element : Element}
    (helement : table.elements slot = some element) : (0 : UInt8) ∉ element.key := by
  induction words using List.reverseRecOn generalizing table slot element with
  | nil =>
    obtain rfl := Except.ok.inj hrun
    cases helement
  | append_singleton words word ih =>
    rw [countWords_append_singleton] at hrun
    rcases hbefore : countWords words with fault | before
    · simp only [hbefore, reduceCtorEq] at hrun
    · simp only [hbefore] at hrun
      rcases elements_of_countWord hrun helement with
        ⟨place, hold⟩ | ⟨_, _, _, _, rfl⟩ | rfl
      · exact ih hbefore hold
      · exact zero_notMem_cString word
      · exact zero_notMem_cString word

/-- The words are counted exactly when every new one is placeable; otherwise there is a fault or
some word is counted too low. -/
theorem countWords_cases {words : List (List UInt8)} (hzero : ∀ word ∈ words, (0 : UInt8) ∉ word) :
    (AllPlaceable words ∧ ∃ table, countWords words = .ok table ∧ Exact words table) ∨
      (¬ AllPlaceable words ∧
        ∀ table, countWords words = .ok table → Undercounted words table) := by
  induction words using List.reverseRecOn with
  | nil =>
    refine Or.inl ⟨fun held word later hsplit ↦ ?_, initTable, rfl, content_initTable, rfl⟩
    exact absurd hsplit.symm (List.append_ne_nil_of_right_ne_nil _ (List.cons_ne_nil _ _))
  | append_singleton words word ih =>
    have hlast : (0 : UInt8) ∉ word := hzero word (List.mem_append_right _ List.mem_cons_self)
    rw [countWords_append_singleton]
    rcases ih fun other hother ↦ hzero other (List.mem_append_left _ hother) with
      ⟨hall, before, hbefore, hexact⟩ | ⟨hnot, hlow⟩
    · simp only [hbefore]
      by_cases hword : word ∈ words
      · exact Or.inl ⟨(allPlaceable_of_mem hword).mpr hall, hexact.countWord_of_mem hlast hword⟩
      · rw [allPlaceable_of_notMem hword]
        exact (hexact.countWord_of_notMem hlast hword).imp
          (fun hplaced ↦ ⟨⟨hall, hplaced.1⟩, hplaced.2⟩)
          fun hlost ↦ ⟨fun hboth ↦ hlost.1 hboth.2, hlost.2⟩
    · refine Or.inr ⟨?_, fun table hok ↦ ?_⟩
      · by_cases hword : word ∈ words
        · exact fun hall ↦ hnot ((allPlaceable_of_mem hword).mp hall)
        · exact fun hall ↦ hnot ((allPlaceable_of_notMem hword).mp hall).1
      · rcases hbefore : countWords words with fault | before
        · simp only [hbefore, reduceCtorEq] at hok
        · simp only [hbefore] at hok
          exact (hlow before hbefore).countWord hlast hok

/-- A table with the exact content holds the count when no word occurs too often for an `int`. -/
theorem Content.counts_iff {words : List (List UInt8)} {table : HashTable}
    (htable : Content words table) :
    Counts words table ↔ ∀ word ∈ words, words.count word < 2 ^ 31 := by
  constructor
  · intro hcounts word hword
    obtain ⟨slot, _, helement, _⟩ := hcounts.stored word hword
    exact (wrapInt_natCast_eq_iff _).mp (htable.value_eq helement).symm
  · intro hsmall
    refine ⟨fun word hword ↦ ?_, fun slot _ element helement ↦ htable.mem_of_elements helement, ?_⟩
    · obtain ⟨slot, element, helement, rfl⟩ := (htable.stored_iff word).mp hword
      have hvalue := htable.value_eq helement
      rw [(wrapInt_natCast_eq_iff _).mpr (hsmall _ hword)] at hvalue
      exact ⟨slot, htable.probing.lt_capacity helement, hvalue ▸ helement,
        fun other _ element' hother hkey ↦ htable.probing.distinct hother helement hkey⟩
    · rw [htable.size_eq, length_distinctWords]

/-- The exact condition for any words. -/
theorem exists_counts_iff (words : List (List UInt8)) :
    (∃ table, countWords words = .ok table ∧ Counts words table) ↔
      (∀ word ∈ words, (0 : UInt8) ∉ word) ∧ (∀ word ∈ words, words.count word < 2 ^ 31) ∧
        AllPlaceable words := by
  constructor
  · rintro ⟨table, hrun, hcounts⟩
    have hzero : ∀ word ∈ words, (0 : UInt8) ∉ word := by
      intro word hword
      obtain ⟨_, _, helement, _⟩ := hcounts.stored word hword
      exact zero_notMem_of_countWords hrun helement
    rcases countWords_cases hzero with ⟨hall, table', hrun', hexact⟩ | ⟨_, hlow⟩
    · obtain rfl := Except.ok.inj (hrun.symm.trans hrun')
      exact ⟨hzero, hexact.counts_iff.mp hcounts, hall⟩
    · exact absurd hcounts (hlow table hrun).not_counts
  · rintro ⟨hzero, hsmall, hall⟩
    rcases countWords_cases hzero with ⟨_, table, hrun, hexact⟩ | ⟨hnot, _⟩
    · exact ⟨table, hrun, hexact.counts_iff.mpr hsmall⟩
    · exact absurd hall hnot

/-- The loop of `main` counts the words of a file, with no index outside the array, exactly when no
word holds a zero byte, no word occurs `2 ^ 31` times or more, and every new word is placeable. -/
theorem countWords_correct_iff (words : List Word) :
    (∃ table, countWords (words.map Word.bytes) = .ok table ∧
        Counts (words.map Word.bytes) table) ↔
      (∀ word ∈ words, (0 : UInt8) ∉ word.bytes) ∧
        (∀ word ∈ words, (words.map Word.bytes).count word.bytes < 2 ^ 31) ∧
        AllPlaceable (words.map Word.bytes) := by
  rw [exists_counts_iff, List.forall_mem_map, List.forall_mem_map]

/-- The words `i` and `s`. -/
def lastSlotWords : List Word :=
  [⟨[105], by decide, by decide, List.forall_mem_singleton.mpr rfl⟩,
    ⟨[115], by decide, by decide, List.forall_mem_singleton.mpr rfl⟩]

/-- Looking up `s` after `i` uses the index 10 of the array of 10 slots. -/
theorem countWords_lastSlotWords :
    countWords (lastSlotWords.map Word.bytes) = .error (.slot 10) ∧
      ¬ ∃ table, countWords (lastSlotWords.map Word.bytes) = .ok table ∧
        Counts (lastSlotWords.map Word.bytes) table := by
  have hfirstHome : homeIndex (10 : ℕ) [105] = 9 := by decide
  have hsecondHome : homeIndex (10 : ℕ) [115] = 9 := by decide
  have hfirst : countWord initTable [105] =
      .ok ⟨Function.update (fun _ ↦ none) 9 (some ⟨1, [105]⟩), 10, 1⟩ := by
    have hget : getElement initTable [105] = .ok none := by
      rw [getElement, show initTable.capacity = 10 from rfl, hfirstHome, getLoop]
      rfl
    have hadd : addLoop initTable 10 9 = .ok 9 := rfl
    rw [countWord, show cString [105] = [105] from rfl, hget]
    simp only [addElement, show initTable.capacity = 10 from rfl, hfirstHome, hadd]
    rfl
  have hsecond : countWord ⟨Function.update (fun _ ↦ none) 9 (some ⟨1, [105]⟩), 10, 1⟩ [115] =
      .error (.slot 10) := by
    rw [countWord, show cString [115] = [115] from rfl, getElement, hsecondHome, getLoop, getLoop]
    rfl
  have hrun : countWords (lastSlotWords.map Word.bytes) = .error (.slot 10) := by
    show (countWord initTable [105] >>= fun table ↦ countWord table [115] >>= pure) = _
    rw [hfirst]
    show (countWord _ [115] >>= pure) = _
    rw [hsecond]
    rfl
  refine ⟨hrun, fun hexists ↦ ?_⟩
  obtain ⟨table, hok, _⟩ := hexists
  rw [hrun] at hok
  cases hok

end Homework.Hash
