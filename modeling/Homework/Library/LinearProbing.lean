import Mathlib.Data.Finset.Card
import Mathlib.Data.List.Count
import Mathlib.Order.Interval.Finset.Nat

/-!
# Linear probing without wrap-around

A table is an array of slots, each free or holding an entry with a key. Every key has a home slot,
and an entry stands at its home or behind it with no free slot in between (`Probing`). A search runs
from the home of a key to the first free slot or the key itself (`probe`); it does not wrap around,
so it can also run off the end of the array.

On a probing table a search finds the entry of every stored key (`Probing.probe_eq_found`), and
storing a new entry in the free slot that its search ends at keeps the table probing
(`Probing.insert`). Whether a search runs off the end depends only on the homes of the stored keys
and of the key sought: it does not exactly when, for every slot, no more of these homes lie at or
behind the slot than the array has slots there (`Probing.exists_probe_eq_free_iff`). This is the
condition under which cars with preferred places can park along a street.

Writing the entries of a list each at its home, in a free array, leaves a probing table of the last
entry of each home (`probing_scatter`), and keeps every entry exactly when the homes are distinct.
-/

set_option autoImplicit false
set_option relaxedAutoImplicit false

namespace Homework.Library.LinearProbing

variable {α K : Type*}

/-! ### Searching -/

/-- How a search ends: at the slot of the key, at a free slot, or off the end of the array. -/
inductive Probe where
  | found (slot : ℕ)
  | free (slot : ℕ)
  | off
deriving DecidableEq, Repr

/-- Searches a key from a slot on. -/
def probe [DecidableEq K] (key : α → K) (capacity : ℕ) (slots : ℕ → Option α) (sought : K)
    (index : ℕ) : Probe :=
  if index < capacity then
    match slots index with
    | none => .free index
    | some entry =>
      if key entry = sought then .found index
      else probe key capacity slots sought (index + 1)
  else .off
termination_by capacity - index

/-- Every slot from one to another, without the latter, holds an entry. -/
def Occupied (slots : ℕ → Option α) (first last : ℕ) : Prop :=
  ∀ place, first ≤ place → place < last → slots place ≠ none

/-- Every slot from one to another, without the latter, holds an entry with another key. -/
def Foreign (key : α → K) (slots : ℕ → Option α) (sought : K) (first last : ℕ) : Prop :=
  ∀ place, first ≤ place → place < last → ∃ entry, slots place = some entry ∧ key entry ≠ sought

/-- Some slot holds an entry with the key. -/
def Stored (key : α → K) (slots : ℕ → Option α) (sought : K) : Prop :=
  ∃ place entry, slots place = some entry ∧ key entry = sought

/-- A probing table: every entry stands inside the array at its home or behind it with no free slot
in between, and no two entries have the same key. -/
structure Probing (key : α → K) (home : K → ℕ) (capacity : ℕ) (slots : ℕ → Option α) : Prop where
  lt_capacity : ∀ {place entry}, slots place = some entry → place < capacity
  home_le : ∀ {place entry}, slots place = some entry → home (key entry) ≤ place
  occupied : ∀ {place entry}, slots place = some entry → Occupied slots (home (key entry)) place
  distinct : ∀ {place place' entry entry'}, slots place = some entry → slots place' = some entry' →
    key entry = key entry' → place = place'

section Foreign

variable {key : α → K} {slots : ℕ → Option α} {sought : K} {first last : ℕ}

theorem Foreign.occupied (hforeign : Foreign key slots sought first last) :
    Occupied slots first last := by
  intro place hfirst hlast
  obtain ⟨entry, hentry, -⟩ := hforeign place hfirst hlast
  exact hentry ▸ Option.some_ne_none entry

/-- Slots with one in front that holds another key. -/
theorem Foreign.cons {entry : α} (hentry : slots first = some entry) (hkey : key entry ≠ sought)
    (hrest : Foreign key slots sought (first + 1) last) : Foreign key slots sought first last := by
  intro place hle hlt
  rcases hle.eq_or_lt with rfl | hnext
  · exact ⟨entry, hentry, hkey⟩
  · exact hrest place hnext hlt

end Foreign

section Searching

variable [DecidableEq K] {key : α → K} {home : K → ℕ} {capacity : ℕ} {slots : ℕ → Option α}

/-- What a search has seen: the key, or only other keys up to a free slot or to the end. -/
theorem probe_spec (key : α → K) (capacity : ℕ) (slots : ℕ → Option α) (sought : K) (index : ℕ) :
    match probe key capacity slots sought index with
    | .found slot => index ≤ slot ∧ slot < capacity ∧ ∃ entry, slots slot = some entry ∧
        key entry = sought
    | .free slot => index ≤ slot ∧ slot < capacity ∧ slots slot = none ∧
        Foreign key slots sought index slot
    | .off => Foreign key slots sought index capacity := by
  induction index using probe.induct key capacity slots sought with
  | case1 index hlt hfree =>
    rw [probe, if_pos hlt, hfree]
    exact ⟨le_rfl, hlt, hfree, fun place hle hlt ↦ absurd hlt (not_lt.mpr hle)⟩
  | case2 index hlt entry hentry hkey =>
    rw [probe, if_pos hlt, hentry]
    simp only [if_pos hkey]
    exact ⟨le_rfl, hlt, entry, hentry, hkey⟩
  | case3 index hlt entry hentry hkey ih =>
    rw [probe, if_pos hlt, hentry]
    simp only [if_neg hkey]
    rcases hnext : probe key capacity slots sought (index + 1) with slot | slot | _ <;>
      simp only [hnext] at ih ⊢
    · exact ⟨(Nat.le_succ index).trans ih.1, ih.2⟩
    · exact ⟨(Nat.le_succ index).trans ih.1, ih.2.1, ih.2.2.1, ih.2.2.2.cons hentry hkey⟩
    · exact ih.cons hentry hkey
  | case4 index hlt =>
    rw [probe, if_neg hlt]
    exact fun place hfirst hlast ↦ absurd (hfirst.trans_lt hlast) hlt

/-- A search that ends at a free slot has passed only other keys. -/
theorem of_probe_eq_free {sought : K} {index slot : ℕ}
    (hprobe : probe key capacity slots sought index = .free slot) :
    index ≤ slot ∧ slot < capacity ∧ slots slot = none ∧ Foreign key slots sought index slot := by
  have hspec := probe_spec key capacity slots sought index
  rwa [hprobe] at hspec

/-- A search that ends at the key has found it. -/
theorem of_probe_eq_found {sought : K} {index slot : ℕ}
    (hprobe : probe key capacity slots sought index = .found slot) :
    index ≤ slot ∧ slot < capacity ∧ ∃ entry, slots slot = some entry ∧ key entry = sought := by
  have hspec := probe_spec key capacity slots sought index
  rwa [hprobe] at hspec

/-- A search that runs off the end has passed only other keys. -/
theorem of_probe_eq_off {sought : K} {index : ℕ}
    (hprobe : probe key capacity slots sought index = .off) :
    Foreign key slots sought index capacity := by
  have hspec := probe_spec key capacity slots sought index
  rwa [hprobe] at hspec

/-- A search that has only other keys in front of an entry finds it. -/
theorem Foreign.probe_eq_found {place index : ℕ} {entry : α}
    (hforeign : Foreign key slots (key entry) index place) (hentry : slots place = some entry)
    (hplace : place < capacity) (hindex : index ≤ place) :
    probe key capacity slots (key entry) index = .found place := by
  induction index using probe.induct key capacity slots (key entry) with
  | case1 index hlt hfree =>
    rcases hindex.eq_or_lt with rfl | hbefore
    · rw [hentry] at hfree
      cases hfree
    · exact absurd hfree (hforeign.occupied index le_rfl hbefore)
  | case2 index hlt other hother hkey =>
    rw [probe, if_pos hlt, hother]
    simp only [if_pos hkey]
    rcases hindex.eq_or_lt with rfl | hbefore
    · rfl
    · obtain ⟨same, hsame, hne⟩ := hforeign index le_rfl hbefore
      rw [hother] at hsame
      exact absurd (Option.some.inj hsame ▸ hkey) hne
  | case3 index hlt other hother hkey ih =>
    have hne : index ≠ place := by
      rintro rfl
      rw [hentry] at hother
      exact hkey (congrArg key (Option.some.inj hother).symm)
    rw [probe, if_pos hlt, hother]
    simp only [if_neg hkey]
    refine ih (fun place' hfirst ↦ ?_) (lt_of_le_of_ne hindex hne)
    exact hforeign place' (Nat.le_of_succ_le hfirst)
  | case4 index hlt => exact absurd (hindex.trans_lt hplace) hlt

/-- A search runs off the end exactly when every slot up to there holds another key. -/
theorem probe_eq_off_iff {sought : K} {index : ℕ} :
    probe key capacity slots sought index = .off ↔ Foreign key slots sought index capacity := by
  refine ⟨of_probe_eq_off, fun hforeign ↦ ?_⟩
  rcases hprobe : probe key capacity slots sought index with slot | slot | _
  · obtain ⟨hfirst, hlast, entry, hentry, hkey⟩ := of_probe_eq_found hprobe
    obtain ⟨other, hother, hne⟩ := hforeign slot hfirst hlast
    rw [hentry] at hother
    exact absurd (Option.some.inj hother ▸ hkey) hne
  · obtain ⟨hfirst, hlast, hfree, -⟩ := of_probe_eq_free hprobe
    exact absurd hfree (hforeign.occupied slot hfirst hlast)
  · rfl

namespace Probing

variable (hslots : Probing key home capacity slots)
include hslots

/-- A search from anywhere on the way to a stored key finds it. -/
theorem probe_eq_found_of_le {place index : ℕ} {entry : α} (hentry : slots place = some entry)
    (hhome : home (key entry) ≤ index) (hindex : index ≤ place) :
    probe key capacity slots (key entry) index = .found place := by
  refine Foreign.probe_eq_found ?_ hentry (hslots.lt_capacity hentry) hindex
  intro passed hfirst hlast
  have hoccupied := hslots.occupied hentry passed (hhome.trans hfirst) hlast
  obtain ⟨other, hother⟩ := Option.ne_none_iff_exists'.mp hoccupied
  exact ⟨other, hother, fun hkey ↦ hlast.ne (hslots.distinct hother hentry hkey)⟩

/-- A search from its home finds a stored key. -/
theorem probe_eq_found {place : ℕ} {entry : α} (hentry : slots place = some entry) :
    probe key capacity slots (key entry) (home (key entry)) = .found place :=
  hslots.probe_eq_found_of_le hentry le_rfl (hslots.home_le hentry)

end Probing

end Searching

/-! ### Storing -/

section Storing

variable {key : α → K} {home : K → ℕ} {capacity : ℕ} {slots : ℕ → Option α}

/-- The entries of a table with one slot replaced. -/
theorem update_eq_some_iff {slot place : ℕ} {entry other : α} :
    Function.update slots slot (some entry) place = some other ↔
      (place = slot ∧ other = entry) ∨ (place ≠ slot ∧ slots place = some other) := by
  rcases eq_or_ne place slot with rfl | hne
  · simp [eq_comm]
  · simp [hne]

theorem Occupied.update {first last slot : ℕ} (hoccupied : Occupied slots first last) (entry : α) :
    Occupied (Function.update slots slot (some entry)) first last := by
  intro place hfirst hlast
  rcases eq_or_ne place slot with rfl | hne
  · rw [Function.update_self]
    exact Option.some_ne_none entry
  · rw [Function.update_of_ne hne]
    exact hoccupied place hfirst hlast

theorem stored_update_free {slot : ℕ} (hfree : slots slot = none) (entry : α) (sought : K) :
    Stored key (Function.update slots slot (some entry)) sought ↔
      sought = key entry ∨ Stored key slots sought := by
  constructor
  · rintro ⟨place, other, hother, rfl⟩
    rcases update_eq_some_iff.mp hother with ⟨rfl, rfl⟩ | ⟨_, hold⟩
    · exact Or.inl rfl
    · exact Or.inr ⟨place, other, hold, rfl⟩
  · rintro (rfl | ⟨place, other, hother, rfl⟩)
    · exact ⟨slot, entry, Function.update_self .., rfl⟩
    · have hne : place ≠ slot := by
        rintro rfl
        rw [hfree] at hother
        cases hother
      exact ⟨place, other, update_eq_some_iff.mpr (Or.inr ⟨hne, hother⟩), rfl⟩

/-- Replacing an entry by one with the same key stores the same keys. -/
theorem stored_replace {slot : ℕ} {entry entry' : α} (hentry : slots slot = some entry)
    (hkey : key entry' = key entry) (sought : K) :
    Stored key (Function.update slots slot (some entry')) sought ↔ Stored key slots sought := by
  constructor
  · rintro ⟨place, other, hother, rfl⟩
    rcases update_eq_some_iff.mp hother with ⟨rfl, rfl⟩ | ⟨_, hold⟩
    · exact ⟨place, entry, hentry, hkey.symm⟩
    · exact ⟨place, other, hold, rfl⟩
  · rintro ⟨place, other, hother, rfl⟩
    rcases eq_or_ne place slot with rfl | hne
    · rw [hentry] at hother
      obtain rfl := Option.some.inj hother
      exact ⟨place, entry', Function.update_self .., hkey⟩
    · exact ⟨place, other, update_eq_some_iff.mpr (Or.inr ⟨hne, hother⟩), rfl⟩

theorem probing_empty : Probing key home capacity fun _ ↦ none where
  lt_capacity h := nomatch h
  home_le h := nomatch h
  occupied h := nomatch h
  distinct h := nomatch h

/-- Storing a new entry in the free slot that its search ends at keeps the table probing. -/
theorem Probing.insert [DecidableEq K] (hslots : Probing key home capacity slots) (entry : α)
    {slot : ℕ} (hnew : ¬ Stored key slots (key entry))
    (hprobe : probe key capacity slots (key entry) (home (key entry)) = .free slot) :
    Probing key home capacity (Function.update slots slot (some entry)) := by
  obtain ⟨hhome, hslot, -, hforeign⟩ := of_probe_eq_free hprobe
  refine ⟨?_, ?_, ?_, ?_⟩
  · intro place other hother
    rcases update_eq_some_iff.mp hother with ⟨rfl, _⟩ | ⟨_, hold⟩
    · exact hslot
    · exact hslots.lt_capacity hold
  · intro place other hother
    rcases update_eq_some_iff.mp hother with ⟨rfl, rfl⟩ | ⟨_, hold⟩
    · exact hhome
    · exact hslots.home_le hold
  · intro place other hother
    rcases update_eq_some_iff.mp hother with ⟨rfl, rfl⟩ | ⟨_, hold⟩
    · exact hforeign.occupied.update _
    · exact (hslots.occupied hold).update _
  · intro place place' other other' hother hother' hkey
    rcases update_eq_some_iff.mp hother with ⟨rfl, rfl⟩ | ⟨_, hold⟩ <;>
      rcases update_eq_some_iff.mp hother' with ⟨rfl, rfl⟩ | ⟨_, hold'⟩
    · rfl
    · exact absurd ⟨place', other', hold', hkey.symm⟩ hnew
    · exact absurd ⟨place, other, hold, hkey⟩ hnew
    · exact hslots.distinct hold hold' hkey

/-- Replacing an entry by one with the same key keeps the table probing. -/
theorem Probing.replace (hslots : Probing key home capacity slots) {entry entry' : α} {slot : ℕ}
    (hentry : slots slot = some entry) (hkey : key entry' = key entry) :
    Probing key home capacity (Function.update slots slot (some entry')) := by
  have hold : ∀ {place other}, Function.update slots slot (some entry') place = some other →
      ∃ before, slots place = some before ∧ key other = key before := by
    intro place other hother
    rcases update_eq_some_iff.mp hother with ⟨rfl, rfl⟩ | ⟨_, hbefore⟩
    · exact ⟨entry, hentry, hkey⟩
    · exact ⟨other, hbefore, rfl⟩
  refine ⟨?_, ?_, ?_, ?_⟩
  · intro place other hother
    obtain ⟨before, hbefore, _⟩ := hold hother
    exact hslots.lt_capacity hbefore
  · intro place other hother
    obtain ⟨before, hbefore, hsame⟩ := hold hother
    rw [hsame]
    exact hslots.home_le hbefore
  · intro place other hother
    obtain ⟨before, hbefore, hsame⟩ := hold hother
    rw [hsame]
    exact (hslots.occupied hbefore).update entry'
  · intro place place' other other' hother hother' hboth
    obtain ⟨before, hbefore, hsame⟩ := hold hother
    obtain ⟨before', hbefore', hsame'⟩ := hold hother'
    exact hslots.distinct hbefore hbefore' (hsame.symm.trans (hboth.trans hsame'))

end Storing

/-! ### Room for a new key -/

/-- The homes of the keys leave room for each other: at or behind every slot, no more of them lie
than the array has slots there. -/
def Fits (home : K → ℕ) (capacity : ℕ) (keys : List K) : Prop :=
  ∀ slot, keys.countP (fun sought ↦ slot ≤ home sought) ≤ capacity - slot

/-- Few keys fit if their homes are far enough from the end. -/
theorem fits_of_le {home : K → ℕ} {capacity bound : ℕ} {keys : List K}
    (hhome : ∀ sought ∈ keys, home sought ≤ bound) (hroom : keys.length + bound ≤ capacity) :
    Fits home capacity keys := by
  intro slot
  by_cases hslot : slot ≤ bound
  · have hcount := List.countP_le_length (p := fun sought ↦ decide (slot ≤ home sought)) (l := keys)
    omega
  · have hnone : keys.countP (fun sought ↦ slot ≤ home sought) = 0 := by
      rw [List.countP_eq_zero]
      intro sought hsought hle
      have hbound := hhome sought hsought
      have hslotLe := of_decide_eq_true hle
      omega
    rw [hnone]
    exact Nat.zero_le _

section Room

variable {key : α → K} {home : K → ℕ} {capacity : ℕ} {slots : ℕ → Option α}

/-- The homes of the stored keys leave room for each other. -/
theorem Probing.fits [DecidableEq K] (hslots : Probing key home capacity slots) {keys : List K}
    (hnodup : keys.Nodup) (hstored : ∀ sought ∈ keys, Stored key slots sought) :
    Fits home capacity keys := by
  intro slot
  have hplaces : ∀ sought, sought ∈ keys.filter (fun sought ↦ slot ≤ home sought) →
      ∃ place, place ∈ Finset.Ico slot capacity ∧
        ∃ entry, slots place = some entry ∧ key entry = sought := by
    intro sought hsought
    obtain ⟨hmem, hle⟩ := List.mem_filter.mp hsought
    obtain ⟨place, entry, hentry, rfl⟩ := hstored sought hmem
    have hhome := (of_decide_eq_true hle).trans (hslots.home_le hentry)
    exact ⟨place, Finset.mem_Ico.mpr ⟨hhome, hslots.lt_capacity hentry⟩, entry, hentry, rfl⟩
  choose! place hplace hentry using hplaces
  rw [List.countP_eq_length_filter, ← List.toFinset_card_of_nodup (hnodup.filter _),
    ← Nat.card_Ico slot capacity]
  refine Finset.card_le_card_of_injOn place ?_ ?_
  · intro sought hsought
    exact hplace sought (List.mem_toFinset.mp hsought)
  · intro first hfirst second hsecond hsame
    obtain ⟨entry, hat, rfl⟩ := hentry first (List.mem_toFinset.mp hfirst)
    obtain ⟨entry', hat', rfl⟩ := hentry second (List.mem_toFinset.mp hsecond)
    rw [hsame, hat'] at hat
    exact congrArg key (Option.some.inj hat).symm

/-- When the end of the array is occupied from a slot on, then from a slot at or before it on, from
which no entry has its home before that slot. -/
theorem Probing.exists_occupied_suffix (hslots : Probing key home capacity slots) {index : ℕ}
    (hoccupied : Occupied slots index capacity) :
    ∃ first ≤ index, Occupied slots first capacity ∧
      ∀ place entry, first ≤ place → slots place = some entry → first ≤ home (key entry) := by
  classical
  have hexists : ∃ first, Occupied slots first capacity := ⟨index, hoccupied⟩
  have hfirst : Occupied slots (Nat.find hexists) capacity := Nat.find_spec hexists
  refine ⟨Nat.find hexists, Nat.find_min' hexists hoccupied, hfirst, ?_⟩
  intro place entry hplace hentry
  by_contra hbefore
  -- an entry from before the first slot would make the slot before it a first one too
  have hlt : home (key entry) < Nat.find hexists := Nat.lt_of_not_le hbefore
  refine Nat.find_min hexists (Nat.sub_one_lt_of_lt hlt) fun place' hfrom hto ↦ ?_
  rcases Nat.lt_or_ge place' (Nat.find hexists) with hearly | hlate
  · exact hslots.occupied hentry place' (by omega) (hearly.trans_le hplace)
  · exact hfirst place' hlate hto

/-- When every slot from the home of a new key on is occupied, its home does not fit in. -/
theorem Probing.not_fits [DecidableEq K] (hslots : Probing key home capacity slots) {keys : List K}
    (hkeys : ∀ sought, Stored key slots sought → sought ∈ keys) {sought : K}
    (hoccupied : Occupied slots (home sought) capacity) :
    ¬ Fits home capacity (keys ++ [sought]) := by
  obtain ⟨first, hle, hfirst, hhome⟩ := hslots.exists_occupied_suffix hoccupied
  have hentries : ∀ place, place ∈ Finset.Ico first capacity →
      ∃ sought', sought' ∈ (keys.filter fun sought ↦ first ≤ home sought).toFinset ∧
        ∃ entry, slots place = some entry ∧ key entry = sought' := by
    intro place hplace
    obtain ⟨hfrom, hto⟩ := Finset.mem_Ico.mp hplace
    obtain ⟨entry, hentry⟩ := Option.ne_none_iff_exists'.mp (hfirst place hfrom hto)
    refine ⟨key entry, List.mem_toFinset.mpr (List.mem_filter.mpr ⟨?_, ?_⟩), entry, hentry, rfl⟩
    · exact hkeys _ ⟨place, entry, hentry, rfl⟩
    · exact decide_eq_true (hhome place entry hfrom hentry)
  have : Nonempty K := ⟨sought⟩
  choose! sought' hmem hentry using hentries
  have hcard : (Finset.Ico first capacity).card ≤
      (keys.filter fun sought ↦ first ≤ home sought).toFinset.card := by
    refine Finset.card_le_card_of_injOn sought' hmem fun place hplace place' hplace' hsame ↦ ?_
    obtain ⟨entry, hat, hkey⟩ := hentry place hplace
    obtain ⟨entry', hat', hkey'⟩ := hentry place' hplace'
    exact hslots.distinct hat hat' (hkey.trans (hsame.trans hkey'.symm))
  have hlength := hcard.trans (List.toFinset_card_le _)
  rw [Nat.card_Ico, ← List.countP_eq_length_filter] at hlength
  intro hfits
  have hcount := hfits first
  rw [List.countP_append, List.countP_singleton, if_pos (decide_eq_true hle)] at hcount
  omega

/-- The search of a new key ends at a free slot exactly when its home fits in with those of the
stored keys. -/
theorem Probing.exists_probe_eq_free_iff [DecidableEq K]
    (hslots : Probing key home capacity slots) {keys : List K} (hnodup : keys.Nodup)
    (hkeys : ∀ sought, sought ∈ keys ↔ Stored key slots sought) (entry : α)
    (hnew : key entry ∉ keys) :
    (∃ slot, probe key capacity slots (key entry) (home (key entry)) = .free slot) ↔
      Fits home capacity (keys ++ [key entry]) := by
  have hnotStored : ¬ Stored key slots (key entry) := fun hstored ↦ hnew ((hkeys _).mpr hstored)
  constructor
  · rintro ⟨slot, hprobe⟩
    have hfree := (of_probe_eq_free hprobe).2.2.1
    refine (hslots.insert entry hnotStored hprobe).fits ?_ fun sought hsought ↦ ?_
    · exact List.nodup_append.mpr ⟨hnodup, List.nodup_singleton _, fun first hfirst second hsecond ↦
        fun hsame ↦ hnew (List.eq_of_mem_singleton hsecond ▸ hsame ▸ hfirst)⟩
    · rw [stored_update_free hfree]
      rcases List.mem_append.mp hsought with hold | hlast
      · exact Or.inr ((hkeys sought).mp hold)
      · exact Or.inl (List.eq_of_mem_singleton hlast)
  · intro hfits
    rcases hprobe : probe key capacity slots (key entry) (home (key entry)) with slot | slot | _
    · obtain ⟨-, -, other, hother, hkey⟩ := of_probe_eq_found hprobe
      exact absurd ⟨slot, other, hother, hkey⟩ hnotStored
    · exact ⟨slot, rfl⟩
    · have hoccupied := (of_probe_eq_off hprobe).occupied
      exact absurd hfits (hslots.not_fits (fun sought ↦ (hkeys sought).mpr) hoccupied)

end Room

/-! ### Writing entries at their homes -/

section Scatter

variable (key : α → K) (home : K → ℕ)

/-- Writes entries in order, each at its home. -/
def scatter (entries : List α) : ℕ → Option α :=
  entries.foldl (fun slots entry ↦ Function.update slots (home (key entry)) (some entry))
    fun _ ↦ none

theorem scatter_append_singleton (entries : List α) (entry : α) :
    scatter key home (entries ++ [entry]) =
      Function.update (scatter key home entries) (home (key entry)) (some entry) :=
  List.foldl_append ..

variable {key home}

/-- Only entries of the list are written, each at its home. -/
theorem of_scatter_eq_some {entries : List α} {place : ℕ} {entry : α}
    (hentry : scatter key home entries place = some entry) :
    entry ∈ entries ∧ place = home (key entry) := by
  induction entries using List.reverseRecOn with
  | nil => cases hentry
  | append_singleton entries last ih =>
    rw [scatter_append_singleton] at hentry
    rcases update_eq_some_iff.mp hentry with ⟨rfl, rfl⟩ | ⟨_, hold⟩
    · exact ⟨List.mem_append_right _ (List.mem_singleton_self _), rfl⟩
    · exact ⟨List.mem_append_left _ (ih hold).1, (ih hold).2⟩

/-- Writing entries at their homes gives a probing table. -/
theorem probing_scatter {capacity : ℕ} {entries : List α}
    (hhome : ∀ entry ∈ entries, home (key entry) < capacity) :
    Probing key home capacity (scatter key home entries) where
  lt_capacity hentry := by
    obtain ⟨hmem, rfl⟩ := of_scatter_eq_some hentry
    exact hhome _ hmem
  home_le hentry := (of_scatter_eq_some hentry).2.ge
  occupied hentry place hfirst hlast := by
    rw [← (of_scatter_eq_some hentry).2] at hfirst
    exact absurd hlast (not_lt.mpr hfirst)
  distinct hentry hentry' hkey := by
    rw [(of_scatter_eq_some hentry).2, (of_scatter_eq_some hentry').2, hkey]

/-- When no two entries have the same home, every entry is written. -/
theorem scatter_eq_some {entries : List α}
    (hinj : ∀ entry ∈ entries, ∀ entry' ∈ entries,
      home (key entry) = home (key entry') → entry = entry')
    {entry : α} (hentry : entry ∈ entries) :
    scatter key home entries (home (key entry)) = some entry := by
  induction entries using List.reverseRecOn with
  | nil => cases hentry
  | append_singleton entries last ih =>
    have hlast : last ∈ entries ++ [last] := List.mem_append_right _ (List.mem_singleton_self _)
    rw [scatter_append_singleton]
    by_cases hsame : home (key entry) = home (key last)
    · rw [hsame, Function.update_self, hinj entry hentry last hlast hsame]
    · rw [Function.update_of_ne hsame]
      refine ih (fun first hfirst second hsecond ↦
        hinj first (List.mem_append_left _ hfirst) second (List.mem_append_left _ hsecond)) ?_
      rcases List.mem_append.mp hentry with hold | hnew
      · exact hold
      · exact absurd (congrArg (fun entry ↦ home (key entry)) (List.eq_of_mem_singleton hnew)) hsame

/-- When no two entries have the same home, the keys stored are those of the entries. -/
theorem stored_scatter {entries : List α}
    (hinj : ∀ entry ∈ entries, ∀ entry' ∈ entries,
      home (key entry) = home (key entry') → entry = entry') (sought : K) :
    Stored key (scatter key home entries) sought ↔ ∃ entry ∈ entries, key entry = sought := by
  constructor
  · rintro ⟨place, entry, hentry, rfl⟩
    exact ⟨entry, (of_scatter_eq_some hentry).1, rfl⟩
  · rintro ⟨entry, hentry, rfl⟩
    exact ⟨_, entry, scatter_eq_some hinj hentry, rfl⟩

/-- Of two keys with the same home at most one is stored. -/
theorem eq_of_stored_scatter {entries : List α} {first second : K}
    (hhome : home first = home second) (hfirst : Stored key (scatter key home entries) first)
    (hsecond : Stored key (scatter key home entries) second) : first = second := by
  obtain ⟨place, entry, hentry, rfl⟩ := hfirst
  obtain ⟨place', entry', hentry', rfl⟩ := hsecond
  have hplace := (of_scatter_eq_some hentry).2
  have hplace' := (of_scatter_eq_some hentry').2
  rw [hplace, hhome, ← hplace', hentry'] at hentry
  exact congrArg key (Option.some.inj hentry).symm

end Scatter

end Homework.Library.LinearProbing
