import Homework.Hash.Table

/-!
# Counting words

`main` counts the words of a file: it looks each word up, adds it with the value 1 if it is new, and
adds 1 to its value otherwise.

What can go wrong depends only on the words. A new word is looked up from its home on without
wrapping around, so its search must find a free slot before the end of the array; and when the array
grows, the words in it must have different homes in the new one, since `rehash` keeps one element of
each home. `Placeable` says that a new word meets neither problem, and `Counts` what the loop is to
achieve.
-/

set_option autoImplicit false
set_option relaxedAutoImplicit false

namespace Homework.Hash

open Homework.Library.CString Homework.Library.LinearProbing

/-! ### `main` -/

/-- A word that `fscanf` reads with `%99s`. -/
structure Word where
  bytes : List UInt8
  length_pos : 0 < bytes.length
  length_le : bytes.length ≤ 99
  isSpace_eq : ∀ byte ∈ bytes, isSpace byte = false

/-- `element->value += 1` for the element of a slot. -/
def incrementValue (table : HashTable) (slot : ℕ) : HashTable :=
  match table.elements slot with
  | none => table
  | some element =>
    { table with
      elements := Function.update table.elements slot
        (some { element with value := wrapInt (element.value + 1) }) }

/-- A round of the loop of `main`. The table sees the C string that the buffer `word` starts
with. -/
def countWord (table : HashTable) (word : List UInt8) : Except Fault HashTable :=
  match getElement table (cString word) with
  | .error fault => .error fault
  | .ok none => addElement table (cString word) 1
  | .ok (some slot) => .ok (incrementValue table slot)

/-- The loop of `main` on the words of a file. -/
def countWords (words : List (List UInt8)) : Except Fault HashTable :=
  words.foldlM countWord initTable

theorem countWords_append_singleton (words : List (List UInt8)) (word : List UInt8) :
    countWords (words ++ [word]) =
      match countWords words with
      | .ok table => countWord table word
      | .error fault => .error fault := by
  rw [countWords, List.foldlM_append, ← countWords]
  rcases countWords words with fault | table
  · rfl
  · show countWord table word >>= pure = countWord table word
    rw [bind_pure]

/-! ### What is to be shown -/

/-- The table holds the count of the words: every word stands in exactly one slot, with its number
of occurrences, nothing else is stored, and the size is the number of distinct words. -/
structure Counts (words : List (List UInt8)) (table : HashTable) : Prop where
  stored : ∀ word ∈ words, ∃ slot, slot < table.capacity ∧
    table.elements slot = some ⟨words.count word, word⟩ ∧
      ∀ other < table.capacity, ∀ element, table.elements other = some element →
        element.key = word → other = slot
  only : ∀ slot < table.capacity, ∀ element, table.elements slot = some element →
    element.key ∈ words
  size_eq : table.size = words.dedup.length

/-- The distinct words, in the order of their first occurrences. -/
def distinctWords (words : List (List UInt8)) : List (List UInt8) :=
  words.foldl (fun seen word ↦ if word ∈ seen then seen else seen ++ [word]) []

/-- The capacity of a table that has taken a number of new words. -/
def capacityAt : ℕ → ℕ
  | 0 => 10
  | count + 1 => if 10 * (count + 1) > 7 * capacityAt count then capacityAt count * 2
      else capacityAt count

/-- The homes of words in an array: none is negative, and no two are the same. -/
structure Separate (capacity : ℕ) (words : List (List UInt8)) : Prop where
  home_nonneg : ∀ word ∈ words, 0 ≤ homeIndex capacity word
  eq_of_homeIndex_eq : ∀ first ∈ words, ∀ second ∈ words,
    homeIndex capacity first = homeIndex capacity second → first = second

/-- A new word can be added to the words that a table holds: its home is not negative and fits in
with their homes, and if the array grows, the homes in the new array are separate. -/
structure Placeable (held : List (List UInt8)) (word : List UInt8) : Prop where
  home_nonneg : 0 ≤ homeIndex (capacityAt held.length) word
  fits : Fits (homeOf (capacityAt held.length)) (capacityAt held.length) (held ++ [word])
  separate : 10 * (held.length + 1) > 7 * capacityAt held.length →
    Separate (capacityAt held.length * 2) (held ++ [word])

/-- Every new word can be added to those before it. -/
def AllPlaceable (words : List (List UInt8)) : Prop :=
  ∀ held word later, distinctWords words = held ++ word :: later → Placeable held word

theorem Separate.eq_of_homeOf_eq {capacity : ℕ} {words : List (List UInt8)}
    (hwords : Separate capacity words) {first second : List UInt8} (hfirst : first ∈ words)
    (hsecond : second ∈ words) (hhome : homeOf capacity first = homeOf capacity second) :
    first = second := by
  apply hwords.eq_of_homeIndex_eq first hfirst second hsecond
  rw [← natCast_homeOf (hwords.home_nonneg first hfirst), hhome,
    natCast_homeOf (hwords.home_nonneg second hsecond)]

/-! ### The distinct words -/

theorem distinctWords_append_singleton (words : List (List UInt8)) (word : List UInt8) :
    distinctWords (words ++ [word]) =
      if word ∈ distinctWords words then distinctWords words
      else distinctWords words ++ [word] := by
  rw [distinctWords, List.foldl_append]
  rfl

theorem mem_distinctWords {words : List (List UInt8)} {word : List UInt8} :
    word ∈ distinctWords words ↔ word ∈ words := by
  induction words using List.reverseRecOn with
  | nil => rfl
  | append_singleton words last ih =>
    rw [distinctWords_append_singleton, List.mem_append, List.mem_singleton]
    split_ifs with hlast
    · rw [ih, iff_self_or]
      rintro rfl
      exact ih.mp hlast
    · rw [List.mem_append, List.mem_singleton, ih]

theorem nodup_distinctWords (words : List (List UInt8)) : (distinctWords words).Nodup := by
  induction words using List.reverseRecOn with
  | nil => exact List.nodup_nil
  | append_singleton words last ih =>
    rw [distinctWords_append_singleton]
    split_ifs with hlast
    · exact ih
    · rw [List.nodup_append]
      refine ⟨ih, List.nodup_singleton last, fun first hfirst second hsecond hsame ↦ hlast ?_⟩
      exact List.eq_of_mem_singleton hsecond ▸ hsame ▸ hfirst

theorem length_distinctWords (words : List (List UInt8)) :
    (distinctWords words).length = words.dedup.length := by
  have hperm : (distinctWords words).Perm words.dedup := by
    rw [List.perm_ext_iff_of_nodup (nodup_distinctWords words) (List.nodup_dedup words)]
    intro word
    rw [mem_distinctWords, List.mem_dedup]
  exact hperm.length_eq

theorem distinctWords_of_mem {words : List (List UInt8)} {word : List UInt8}
    (hword : word ∈ words) : distinctWords (words ++ [word]) = distinctWords words := by
  rw [distinctWords_append_singleton, if_pos (mem_distinctWords.mpr hword)]

theorem distinctWords_of_notMem {words : List (List UInt8)} {word : List UInt8}
    (hword : word ∉ words) :
    distinctWords (words ++ [word]) = distinctWords words ++ [word] := by
  rw [distinctWords_append_singleton, if_neg fun hmem ↦ hword (mem_distinctWords.mp hmem)]

theorem allPlaceable_of_mem {words : List (List UInt8)} {word : List UInt8}
    (hword : word ∈ words) : AllPlaceable (words ++ [word]) ↔ AllPlaceable words := by
  unfold AllPlaceable
  rw [distinctWords_of_mem hword]

/-- Every word can be added exactly when every earlier one can and the last one can. -/
theorem allPlaceable_of_notMem {words : List (List UInt8)} {word : List UInt8}
    (hword : word ∉ words) : AllPlaceable (words ++ [word]) ↔
      AllPlaceable words ∧ Placeable (distinctWords words) word := by
  unfold AllPlaceable
  rw [distinctWords_of_notMem hword]
  constructor
  · intro hall
    refine ⟨fun held next later hsplit ↦ hall held next (later ++ [word]) ?_,
      hall (distinctWords words) word [] rfl⟩
    rw [hsplit, List.append_assoc]
    rfl
  · rintro ⟨hearlier, hlast⟩ held next later hsplit
    rcases List.eq_nil_or_concat later with rfl | ⟨before, last, rfl⟩
    · obtain ⟨rfl, hsame⟩ := List.append_inj' hsplit rfl
      exact List.head_eq_of_cons_eq hsame ▸ hlast
    · rw [List.concat_eq_append, ← List.cons_append, ← List.append_assoc] at hsplit
      exact hearlier held next before (List.append_inj' hsplit rfl).1

/-! ### Values -/

@[simp] theorem wrapInt_one : wrapInt 1 = 1 := by
  decide

theorem wrapInt_add_one (value : ℤ) : wrapInt (wrapInt value + 1) = wrapInt (value + 1) :=
  Int.bmod_add_bmod ..

theorem wrapInt_natCast_le (count : ℕ) : wrapInt count ≤ count := by
  have hsize : ((2 ^ 32 : ℕ) : ℤ) = 4294967296 := rfl
  unfold wrapInt
  rw [Int.bmod_def, hsize]
  split_ifs <;> omega

/-- A count is its own `int` exactly below `2 ^ 31`. -/
theorem wrapInt_natCast_eq_iff (count : ℕ) : wrapInt count = count ↔ count < 2 ^ 31 := by
  have hsize : ((2 ^ 32 : ℕ) : ℤ) = 4294967296 := rfl
  unfold wrapInt
  rw [Int.bmod_def, hsize]
  split_ifs <;> omega

end Homework.Hash
