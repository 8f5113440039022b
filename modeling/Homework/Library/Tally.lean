import Mathlib.Algebra.BigOperators.Group.List.Basic
import Mathlib.Data.List.Induction
import Mathlib.Data.List.Nodup

/-!
# Keyed sums

A stream of contributions, each a key with an amount, sums up to a finite map: a key that occurs has
the sum of its amounts, and a key that does not occur has no value. `tally` is that map. It does not
depend on the order of the contributions (`tally_perm`), it is determined part by part
(`tally_append_congr`), and an association list with distinct keys that represents a tally can be
replayed in its place (`tally_eq_of_nodup`).

`bump` adds an amount to the value of a key in an association list, at the first place where the key
stands, and `tally_bump` says that this adds a contribution to the tally.
-/

set_option autoImplicit false
set_option relaxedAutoImplicit false

namespace Homework.Library.Tally

variable {K M : Type*} [DecidableEq K]

/-! ### The tally of a stream -/

/-- The amounts that a stream contributes to a key, in order. -/
def amounts (stream : List (K × M)) (key : K) : List M :=
  (stream.filter fun contribution ↦ contribution.1 = key).map Prod.snd

@[simp] theorem amounts_nil (key : K) : amounts ([] : List (K × M)) key = [] :=
  rfl

@[simp] theorem amounts_append (first second : List (K × M)) (key : K) :
    amounts (first ++ second) key = amounts first key ++ amounts second key := by
  rw [amounts, List.filter_append, List.map_append, amounts, amounts]

theorem amounts_cons_self (key : K) (amount : M) (stream : List (K × M)) :
    amounts ((key, amount) :: stream) key = amount :: amounts stream key := by
  simp [amounts]

theorem amounts_cons_of_ne {other key : K} (hne : other ≠ key) (amount : M)
    (stream : List (K × M)) : amounts ((other, amount) :: stream) key = amounts stream key := by
  simp [amounts, hne]

/-- A key contributes nothing exactly when it does not occur. -/
theorem amounts_eq_nil_iff (stream : List (K × M)) (key : K) :
    amounts stream key = [] ↔ key ∉ stream.map Prod.fst := by
  simp only [amounts, List.map_eq_nil_iff, List.filter_eq_nil_iff, decide_eq_true_eq, List.mem_map,
    not_exists, not_and]

section Tally

variable [AddCommMonoid M]

/-- The finite map of a stream: the sum of the amounts of each key that occurs. -/
def tally (stream : List (K × M)) (key : K) : Option M :=
  if (amounts stream key).isEmpty then none else some (amounts stream key).sum

/-- The tally does not depend on the order of the contributions. -/
theorem tally_perm {first second : List (K × M)} (hperm : first.Perm second) :
    tally first = tally second := by
  funext key
  have hamounts : (amounts first key).Perm (amounts second key) :=
    (hperm.filter _).map _
  have hempty : (amounts first key).isEmpty = (amounts second key).isEmpty := by
    rw [Bool.eq_iff_iff, List.isEmpty_iff_length_eq_zero, List.isEmpty_iff_length_eq_zero,
      hamounts.length_eq]
  simp only [tally, hamounts.sum_eq, hempty]

/-- A key that does not occur has the sum of nothing. -/
theorem getD_tally (stream : List (K × M)) (key : K) :
    (tally stream key).getD 0 = (amounts stream key).sum := by
  by_cases hempty : amounts stream key = []
  · simp [tally, hempty]
  · simp [tally, hempty]

/-- Two streams have the same tally exactly when every key occurs in both or in neither, with the
same sum. -/
theorem tally_eq_iff {first second : List (K × M)} :
    tally first = tally second ↔
      ∀ key, (amounts first key = [] ↔ amounts second key = []) ∧
        (amounts first key).sum = (amounts second key).sum := by
  rw [funext_iff]
  refine forall_congr' fun key ↦ ?_
  by_cases hfirst : amounts first key = [] <;> by_cases hsecond : amounts second key = [] <;>
    simp [tally, hfirst, hsecond]

/-- The keys that occur are determined by the tally. -/
theorem mem_map_fst_iff_of_tally_eq {first second : List (K × M)}
    (htally : tally first = tally second) {key : K} :
    key ∈ first.map Prod.fst ↔ key ∈ second.map Prod.fst := by
  rw [← not_iff_not, ← amounts_eq_nil_iff, ← amounts_eq_nil_iff]
  exact (tally_eq_iff.mp htally key).1

/-- The tally of two streams in a row is determined by their tallies. -/
theorem tally_append_congr {first first' second second' : List (K × M)}
    (hfirst : tally first = tally first') (hsecond : tally second = tally second') :
    tally (first ++ second) = tally (first' ++ second') := by
  rw [tally_eq_iff] at *
  intro key
  obtain ⟨hfirstNil, hfirstSum⟩ := hfirst key
  obtain ⟨hsecondNil, hsecondSum⟩ := hsecond key
  simp only [amounts_append, List.append_eq_nil_iff, List.sum_append, hfirstNil, hsecondNil,
    hfirstSum, hsecondSum, and_self]

/-- One more contribution changes the value of its key only. -/
theorem tally_append_singleton (stream : List (K × M)) (key : K) (amount : M) :
    tally (stream ++ [(key, amount)]) =
      Function.update (tally stream) key (some ((tally stream key).getD 0 + amount)) := by
  ext1 other
  rcases eq_or_ne other key with rfl | hother
  · rw [Function.update_self]
    by_cases hempty : amounts stream other = []
    · simp [tally, amounts_cons_self, hempty]
    · simp [tally, amounts_cons_self, hempty]
  · rw [Function.update_of_ne hother]
    simp only [tally, amounts_append, amounts_cons_of_ne hother.symm, amounts_nil, List.append_nil]

end Tally

/-! ### The order of the keys -/

section Keys

/-- A key takes its place behind the keys that are there, unless it is one of them. -/
def addKey (keys : List K) (key : K) : List K := if key ∈ keys then keys else keys ++ [key]

/-- The keys in the order of their first occurrences. -/
def firsts (keys : List K) : List K := keys.foldl addKey []

theorem firsts_append_singleton (keys : List K) (key : K) :
    firsts (keys ++ [key]) = addKey (firsts keys) key := by
  rw [firsts, List.foldl_append]
  rfl

theorem mem_addKey_iff {keys : List K} {key other : K} :
    other ∈ addKey keys key ↔ other ∈ keys ∨ other = key := by
  unfold addKey
  split_ifs with hkey
  · exact (or_iff_left_of_imp fun heq ↦ heq ▸ hkey).symm
  · rw [List.mem_append, List.mem_singleton]

@[simp] theorem mem_firsts {keys : List K} {key : K} : key ∈ firsts keys ↔ key ∈ keys := by
  induction keys using List.reverseRecOn with
  | nil => exact Iff.rfl
  | append_singleton keys last ih =>
    rw [firsts_append_singleton, mem_addKey_iff, ih, List.mem_append, List.mem_singleton]

theorem nodup_firsts (keys : List K) : (firsts keys).Nodup := by
  induction keys using List.reverseRecOn with
  | nil => exact List.nodup_nil
  | append_singleton keys key ih =>
    rw [firsts_append_singleton, addKey]
    split_ifs with hkey
    · exact ih
    · exact ih.append (List.nodup_singleton key) (List.disjoint_singleton.mpr hkey)

/-- Keys that come one after the other take their places in the order of their first occurrences,
those left out that are there before. -/
theorem foldl_addKey (start keys : List K) :
    keys.foldl addKey start = start ++ (firsts keys).filter (· ∉ start) := by
  induction keys using List.reverseRecOn with
  | nil => exact (List.append_nil start).symm
  | append_singleton keys key ih =>
    rw [List.foldl_append, List.foldl_cons, List.foldl_nil, ih, firsts_append_singleton]
    by_cases hstart : key ∈ start
    · by_cases hkey : key ∈ keys
      · simp [addKey, hstart, hkey]
      · simp [addKey, hstart, hkey]
    · by_cases hkey : key ∈ keys
      · simp [addKey, hstart, hkey]
      · simp [addKey, hstart, hkey]

end Keys

/-! ### Association lists -/

section Bump

variable [AddCommMonoid M]

/-- Adds an amount to the value at the first place where the key stands, if it stands anywhere. -/
def bump (key : K) (amount : M) : List (K × M) → Option (List (K × M))
  | [] => none
  | entry :: rest =>
    if entry.1 = key then some ((entry.1, entry.2 + amount) :: rest)
    else (bump key amount rest).map (entry :: ·)

/-- The value at the first place where the key stands. -/
def lookup (entries : List (K × M)) (key : K) : Option M :=
  (entries.find? fun entry ↦ entry.1 = key).map Prod.snd

theorem bump_eq_none_iff (key : K) (amount : M) (entries : List (K × M)) :
    bump key amount entries = none ↔ key ∉ entries.map Prod.fst := by
  induction entries with
  | nil => simp [bump]
  | cons entry rest ih =>
    by_cases hkey : entry.1 = key
    · simp [bump, hkey]
    · simp only [bump, if_neg hkey, Option.map_eq_none_iff, ih, List.map_cons, List.mem_cons,
        not_or]
      exact ⟨fun h ↦ ⟨fun heq ↦ hkey heq.symm, h⟩, fun h ↦ h.2⟩

/-- Adding to a value changes no key. -/
theorem map_fst_of_bump {key : K} {amount : M} {entries bumped : List (K × M)}
    (h : bump key amount entries = some bumped) :
    bumped.map Prod.fst = entries.map Prod.fst := by
  induction entries generalizing bumped with
  | nil => cases h
  | cons entry rest ih =>
    rw [bump] at h
    split_ifs at h with hkey
    · obtain rfl := Option.some.inj h
      rfl
    · obtain ⟨rest', hrest, rfl⟩ := Option.map_eq_some_iff.mp h
      rw [List.map_cons, List.map_cons, ih hrest]

/-- Adding to a value adds a contribution to the tally. -/
theorem tally_bump {key : K} {amount : M} {entries bumped : List (K × M)}
    (h : bump key amount entries = some bumped) :
    tally bumped = tally (entries ++ [(key, amount)]) := by
  induction entries generalizing bumped with
  | nil => cases h
  | cons entry rest ih =>
    obtain ⟨name, held⟩ := entry
    rw [bump] at h
    split_ifs at h with hkey
    · obtain rfl := Option.some.inj h
      rw [tally_eq_iff]
      intro other
      rcases eq_or_ne name other with hother | hother
      · have hkeyOther : key = other := hkey.symm.trans hother
        subst hkeyOther hother
        simp only [List.cons_append, amounts_cons_self, amounts_append, amounts_nil, reduceCtorEq,
          List.sum_cons, List.sum_append, List.sum_nil, add_zero, true_and]
        rw [add_assoc, add_comm amount]
      · have hkeyOther : key ≠ other := fun heq ↦ hother (hkey.trans heq)
        simp only [List.cons_append, amounts_append, amounts_cons_of_ne hother,
          amounts_cons_of_ne hkeyOther, amounts_nil, List.append_nil, true_and]
    · obtain ⟨rest', hrest, rfl⟩ := Option.map_eq_some_iff.mp h
      have hhead : tally [(name, held)] = tally [(name, held)] := rfl
      exact tally_append_congr hhead (ih hrest)

omit [AddCommMonoid M] in
/-- An association list with distinct keys holds the value of each. -/
theorem lookup_of_mem {entries : List (K × M)} (hnodup : (entries.map Prod.fst).Nodup)
    {entry : K × M} (hentry : entry ∈ entries) : lookup entries entry.1 = some entry.2 := by
  induction entries with
  | nil => exact absurd hentry List.not_mem_nil
  | cons first rest ih =>
    rw [List.map_cons, List.nodup_cons] at hnodup
    rcases List.mem_cons.mp hentry with rfl | hrest
    · simp [lookup]
    · have hne : first.1 ≠ entry.1 := fun heq ↦
        hnodup.1 (heq ▸ List.mem_map_of_mem hrest)
      have hlater := ih hnodup.2 hrest
      simp only [lookup] at hlater
      simp [lookup, hne, hlater]

/-- An association list with distinct keys reads as its tally. -/
theorem lookup_eq_tally {entries : List (K × M)} (hnodup : (entries.map Prod.fst).Nodup) :
    lookup entries = tally entries := by
  ext1 key
  induction entries with
  | nil => rfl
  | cons entry rest ih =>
    obtain ⟨name, held⟩ := entry
    rw [List.map_cons, List.nodup_cons] at hnodup
    rcases eq_or_ne name key with hkey | hkey
    · subst hkey
      have hrest : amounts rest name = [] := (amounts_eq_nil_iff rest name).mpr hnodup.1
      simp [lookup, tally, amounts_cons_self, hrest]
    · have hrest := ih hnodup.2
      simp only [lookup, tally] at hrest
      simp [lookup, tally, amounts_cons_of_ne hkey, hkey, hrest]

end Bump

end Homework.Library.Tally
