import Homework.Library.LinearProbing

/-!
# Linear probing with wrap-around

Here the search for a free slot goes on at the front of the array when it has come to the end
(`seek`). It finds one whenever there is one (`exists_seek`), and has passed only occupied slots
(`of_seek_eq_some`). So every entry stands behind its home with no free slot on the way, where the
way goes cyclically (`Placed`), and storing an entry where its search ends keeps it so
(`Placed.insert`).

A search that does not wrap around may still stop at the first free slot
(`Placed.not_holds_of_probe_eq_free`), and it finds every entry that is not in front of its home
(`Placed.probe_eq_found`). Freeing a slot keeps every entry in reach exactly when
the slot is on the way of no other entry (`Placed.placed_erase_iff`).
-/

set_option autoImplicit false
set_option relaxedAutoImplicit false

namespace Homework.Library.CyclicProbing

open LinearProbing

variable {α K : Type*}

/-! ### Ways -/

/-- The slot lies on the way from a home to a place: at or behind the home, cyclically, and in front
of the place. -/
def OnWay (capacity home place slot : ℕ) : Prop :=
  if home ≤ place then home ≤ slot ∧ slot < place
  else (home ≤ slot ∧ slot < capacity) ∨ slot < place

instance (capacity home place slot : ℕ) : Decidable (OnWay capacity home place slot) :=
  inferInstanceAs (Decidable (ite _ _ _))

/-- The way of a place to itself is empty. -/
theorem not_onWay_self (capacity place slot : ℕ) : ¬ OnWay capacity place place slot := by
  rw [OnWay, if_pos le_rfl]
  exact fun hway ↦ absurd hway.1 (not_le.mpr hway.2)

/-- The slots on the way to a place are the home and those on the way from the slot behind it. -/
theorem OnWay.eq_or_next {capacity home place slot : ℕ} (hhome : home < capacity)
    (hne : place ≠ home) (hway : OnWay capacity home place slot) :
    slot = home ∨ OnWay capacity ((home + 1) % capacity) place slot := by
  have hnext : (home + 1) % capacity = if home + 1 < capacity then home + 1 else 0 := by
    split_ifs with hlt
    · exact Nat.mod_eq_of_lt hlt
    · rw [show home + 1 = capacity by omega, Nat.mod_self]
  unfold OnWay at hway ⊢
  rw [hnext]
  rcases lt_or_gt_of_ne hne with hfront | hbehind <;> split_ifs at hway ⊢ <;> omega

/-- An entry with the key stands in the array. -/
def Holds (key : α → K) (capacity : ℕ) (slots : ℕ → Option α) (sought : K) : Prop :=
  ∃ place entry, place < capacity ∧ slots place = some entry ∧ key entry = sought

/-- No slot on the way from its home to an entry is free, and no two entries have the same key. -/
structure Placed (key : α → K) (home : K → ℕ) (capacity : ℕ) (slots : ℕ → Option α) : Prop where
  occupied : ∀ {place entry slot}, place < capacity → slots place = some entry →
    OnWay capacity (home (key entry)) place slot → slots slot ≠ none
  distinct : ∀ {place place' entry entry'}, place < capacity → place' < capacity →
    slots place = some entry → slots place' = some entry' → key entry = key entry' → place = place'

/-- No slot between its home and an entry behind it is free. -/
theorem Placed.occupied_of_home_le {key : α → K} {home : K → ℕ} {capacity place : ℕ}
    {slots : ℕ → Option α} {entry : α} (hslots : Placed key home capacity slots)
    (hplace : place < capacity) (hentry : slots place = some entry)
    (hhome : home (key entry) ≤ place) : Occupied slots (home (key entry)) place := by
  intro passed hfirst hlast
  refine hslots.occupied hplace hentry ?_
  rw [OnWay, if_pos hhome]
  exact ⟨hfirst, hlast⟩

/-! ### Seeking a free slot -/

section Seeking

variable {key : α → K} {home : K → ℕ} {capacity : ℕ} {slots : ℕ → Option α}

/-- Seeks a free slot from an index on, cyclically, for a number of rounds. -/
def seek (capacity : ℕ) (slots : ℕ → Option α) : ℕ → ℕ → Option ℕ
  | 0, _ => none
  | rounds + 1, index =>
    match slots index with
    | none => some index
    | some _ => seek capacity slots rounds ((index + 1) % capacity)

/-- The slot found is free, and all slots on the way to it are occupied. -/
theorem of_seek_eq_some {rounds index slot : ℕ} (hindex : index < capacity)
    (hseek : seek capacity slots rounds index = some slot) :
    slot < capacity ∧ slots slot = none ∧
      ∀ passed, OnWay capacity index slot passed → slots passed ≠ none := by
  induction rounds generalizing index with
  | zero => exact absurd hseek nofun
  | succ rounds ih =>
    rw [seek] at hseek
    rcases hat : slots index with _ | entry
    · rw [hat] at hseek
      obtain rfl := Option.some.inj hseek
      exact ⟨hindex, hat, fun passed hway ↦ absurd hway (not_onWay_self capacity index passed)⟩
    · rw [hat] at hseek
      obtain ⟨hslot, hfree, hpassed⟩ := ih (Nat.mod_lt _ (Nat.zero_lt_of_lt hindex)) hseek
      have hne : slot ≠ index := by
        rintro rfl
        rw [hat] at hfree
        cases hfree
      refine ⟨hslot, hfree, fun passed hway ↦ ?_⟩
      rcases hway.eq_or_next hindex hne with rfl | hlater
      · exact hat ▸ Option.some_ne_none entry
      · exact hpassed passed hlater

/-- A free slot that few enough steps lead to is found, or one before it. -/
theorem exists_seek_of_step {rounds index step : ℕ} (hstep : step < rounds)
    (hfree : slots ((index + step) % capacity) = none) (hindex : index < capacity) :
    ∃ slot, seek capacity slots rounds index = some slot := by
  induction rounds generalizing index step with
  | zero => exact absurd hstep (Nat.not_lt_zero step)
  | succ rounds ih =>
    rw [seek]
    rcases hat : slots index with _ | entry
    · exact ⟨index, rfl⟩
    · cases step with
      | zero =>
        rw [Nat.add_zero, Nat.mod_eq_of_lt hindex, hat] at hfree
        cases hfree
      | succ step =>
        refine ih (Nat.lt_of_succ_lt_succ hstep) ?_ (Nat.mod_lt _ (Nat.zero_lt_of_lt hindex))
        rwa [Nat.mod_add_mod, Nat.add_assoc, Nat.add_comm 1]

/-- A search that may look at every slot finds a free one if there is one. -/
theorem exists_seek {index : ℕ} (hindex : index < capacity)
    (hfree : ∃ slot, slot < capacity ∧ slots slot = none) :
    ∃ slot, seek capacity slots capacity index = some slot := by
  obtain ⟨slot, hslot, hnone⟩ := hfree
  refine exists_seek_of_step (Nat.mod_lt (slot + capacity - index) (Nat.zero_lt_of_lt hslot)) ?_
    hindex
  rw [Nat.add_mod_mod, show index + (slot + capacity - index) = slot + capacity by omega,
    Nat.add_mod_right, Nat.mod_eq_of_lt hslot]
  exact hnone

theorem placed_empty : Placed key home capacity fun _ ↦ none where
  occupied _ h := nomatch h
  distinct _ _ h := nomatch h

/-- Storing a new entry in the free slot that its search ends at keeps every entry in reach. -/
theorem Placed.insert (hslots : Placed key home capacity slots) (entry : α) {rounds slot : ℕ}
    (hhome : home (key entry) < capacity) (hnew : ¬ Holds key capacity slots (key entry))
    (hseek : seek capacity slots rounds (home (key entry)) = some slot) :
    Placed key home capacity (Function.update slots slot (some entry)) := by
  obtain ⟨-, hfree, hpassed⟩ := of_seek_eq_some hhome hseek
  have hkeep : ∀ {passed}, slots passed ≠ none →
      Function.update slots slot (some entry) passed ≠ none := by
    intro passed hoccupied
    have hne : passed ≠ slot := by
      rintro rfl
      exact hoccupied hfree
    rwa [Function.update_of_ne hne]
  refine ⟨?_, ?_⟩
  · intro place other passed hplace hother hway
    rcases update_eq_some_iff.mp hother with ⟨rfl, rfl⟩ | ⟨-, hold⟩
    · exact hkeep (hpassed passed hway)
    · exact hkeep (hslots.occupied hplace hold hway)
  · intro place place' other other' hplace hplace' hother hother' hkey
    rcases update_eq_some_iff.mp hother with ⟨rfl, rfl⟩ | ⟨-, hold⟩ <;>
      rcases update_eq_some_iff.mp hother' with ⟨rfl, rfl⟩ | ⟨-, hold'⟩
    · rfl
    · exact absurd ⟨place', other', hplace', hold', hkey.symm⟩ hnew
    · exact absurd ⟨place, other, hplace, hold, hkey⟩ hnew
    · exact hslots.distinct hplace hplace' hold hold' hkey

end Seeking

/-! ### Searching a key without wrap-around -/

section Searching

variable [DecidableEq K] {key : α → K} {home : K → ℕ} {capacity : ℕ} {slots : ℕ → Option α}

/-- A search that does not wrap around finds every entry that is not in front of its home. -/
theorem Placed.probe_eq_found (hslots : Placed key home capacity slots) {place : ℕ} {entry : α}
    (hplace : place < capacity) (hentry : slots place = some entry)
    (hhome : home (key entry) ≤ place) :
    probe key capacity slots (key entry) (home (key entry)) = .found place := by
  refine Foreign.probe_eq_found (fun passed hfirst hlast ↦ ?_) hentry hplace hhome
  have hoccupied := hslots.occupied_of_home_le hplace hentry hhome passed hfirst hlast
  obtain ⟨other, hother⟩ := Option.ne_none_iff_exists'.mp hoccupied
  exact ⟨other, hother, fun hkey ↦
    hlast.ne (hslots.distinct (hlast.trans hplace) hplace hother hentry hkey)⟩

/-- A search that does not wrap around may stop at a free slot: then the key is not there. -/
theorem Placed.not_holds_of_probe_eq_free (hslots : Placed key home capacity slots) {sought : K}
    {slot : ℕ} (hprobe : probe key capacity slots sought (home sought) = .free slot) :
    ¬ Holds key capacity slots sought := by
  obtain ⟨hfirst, hlast, hfree, hforeign⟩ := of_probe_eq_free hprobe
  rintro ⟨place, entry, hplace, hentry, rfl⟩
  by_cases hway : OnWay capacity (home (key entry)) place slot
  · exact hslots.occupied hplace hentry hway hfree
  · unfold OnWay at hway
    have hrange : home (key entry) ≤ place ∧ place < slot ∨ place = slot := by
      split_ifs at hway <;> omega
    rcases hrange with ⟨hle, hlt⟩ | rfl
    · obtain ⟨other, hother, hne⟩ := hforeign place hle hlt
      rw [hentry] at hother
      exact hne (congrArg key (Option.some.inj hother).symm)
    · rw [hentry] at hfree
      cases hfree

end Searching

/-! ### Freeing a slot -/

section Freeing

variable {key : α → K} {home : K → ℕ} {capacity : ℕ} {slots : ℕ → Option α}

/-- The entries of a table with one slot freed. -/
theorem update_none_eq_some_iff {slot place : ℕ} {entry : α} :
    Function.update slots slot none place = some entry ↔
      place ≠ slot ∧ slots place = some entry := by
  rcases eq_or_ne place slot with rfl | hne
  · simp
  · simp [hne]

/-- Freeing a slot keeps every entry in reach exactly when the slot is on the way of no other
entry. -/
theorem Placed.placed_erase_iff (hslots : Placed key home capacity slots) (slot : ℕ) :
    Placed key home capacity (Function.update slots slot none) ↔
      ∀ place entry, place < capacity → place ≠ slot → slots place = some entry →
        ¬ OnWay capacity (home (key entry)) place slot := by
  constructor
  · intro herased place entry hplace hne hentry hway
    exact herased.occupied hplace (update_none_eq_some_iff.mpr ⟨hne, hentry⟩) hway
      (Function.update_self ..)
  · intro hfree
    refine ⟨?_, ?_⟩
    · intro place entry passed hplace hentry hway
      obtain ⟨hne, hold⟩ := update_none_eq_some_iff.mp hentry
      have hpassed : passed ≠ slot := by
        rintro rfl
        exact hfree place entry hplace hne hold hway
      rw [Function.update_of_ne hpassed]
      exact hslots.occupied hplace hold hway
    · intro place place' entry entry' hplace hplace' hentry hentry' hkey
      exact hslots.distinct hplace hplace' (update_none_eq_some_iff.mp hentry).2
        (update_none_eq_some_iff.mp hentry').2 hkey

end Freeing

end Homework.Library.CyclicProbing
