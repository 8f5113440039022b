import Mathlib.Data.List.Perm.Basic
import Mathlib.Order.Lattice

/-!
# Selecting the first entries by a comparator

A sorting routine is given a comparator, whose sign says which of two entries goes first, and
promises to sort whenever the comparator orders the entries consistently (`Sorts`). Taking the first
entries of what it returns is meant to select those of the largest values (`IsTop`).

This works for every such routine exactly when the comparator is consistent and ranks the entries
that can come out among the first behind all entries of larger value (`isTop_take_iff`). Where the
comparator leaves a choice, or is not consistent at all, there is a routine that puts an entry of
smaller value first (`exists_sorts_eq`).
-/

set_option autoImplicit false
set_option relaxedAutoImplicit false

namespace Homework.Library.Selection

variable {A : Type*}

/-! ### Comparators and sorting routines -/

/-- The comparator orders the entries of a list consistently. -/
structure Consistent (cmp : A → A → ℤ) (entries : List A) : Prop where
  neg_iff : ∀ a ∈ entries, ∀ b ∈ entries, cmp a b < 0 ↔ 0 < cmp b a
  trans : ∀ a ∈ entries, ∀ b ∈ entries, ∀ c ∈ entries, cmp a b ≤ 0 → cmp b c ≤ 0 → cmp a c ≤ 0

/-- The entries are in the order of the comparator. -/
def Ordered (cmp : A → A → ℤ) (entries : List A) : Prop :=
  entries.Pairwise fun a b ↦ cmp a b ≤ 0

/-- The routine sorts whenever the comparator is consistent. -/
def Sorts (sort : (A → A → ℤ) → List A → List A) : Prop :=
  ∀ cmp entries, Consistent cmp entries →
    (sort cmp entries).Perm entries ∧ Ordered cmp (sort cmp entries)

section Order

variable {cmp : A → A → ℤ} {entries : List A}

theorem Consistent.of_subset {part : List A} (hcmp : Consistent cmp entries)
    (hsubset : ∀ a ∈ part, a ∈ entries) : Consistent cmp part where
  neg_iff a ha b hb := hcmp.neg_iff a (hsubset a ha) b (hsubset b hb)
  trans a ha b hb c hc := hcmp.trans a (hsubset a ha) b (hsubset b hb) c (hsubset c hc)

/-- An entry that does not go after another may go before it. -/
theorem Consistent.le_iff (hcmp : Consistent cmp entries) {a b : A} (ha : a ∈ entries)
    (hb : b ∈ entries) : cmp a b ≤ 0 ↔ 0 ≤ cmp b a := by
  rw [← not_lt, ← hcmp.neg_iff b hb a ha, not_lt]

theorem Consistent.self_eq_zero (hcmp : Consistent cmp entries) {a : A} (ha : a ∈ entries) :
    cmp a a = 0 := by
  have hself := hcmp.neg_iff a ha a ha
  omega

/-- The number of entries that go strictly before an entry. -/
def before (cmp : A → A → ℤ) (entries : List A) (a : A) : ℕ :=
  entries.countP fun c ↦ cmp c a < 0

/-- An ordered list takes a further entry behind the entries that go strictly before it. -/
theorem ordered_around {a : A} (hcmp : Consistent cmp (a :: entries))
    (hordered : Ordered cmp entries) :
    Ordered cmp (entries.filter (fun c ↦ cmp c a < 0) ++
      a :: entries.filter fun c ↦ 0 ≤ cmp c a) := by
  have hlow : ∀ c ∈ entries.filter (fun c ↦ cmp c a < 0), c ∈ a :: entries ∧ cmp c a ≤ 0 := by
    intro c hc
    obtain ⟨hmem, hlt⟩ := List.mem_filter.mp hc
    exact ⟨List.mem_cons_of_mem a hmem, le_of_lt (of_decide_eq_true hlt)⟩
  have hhigh : ∀ c ∈ entries.filter (fun c ↦ 0 ≤ cmp c a),
      c ∈ a :: entries ∧ cmp a c ≤ 0 := by
    intro c hc
    obtain ⟨hmem, hnot⟩ := List.mem_filter.mp hc
    have hcons := List.mem_cons_of_mem a hmem
    exact ⟨hcons, (hcmp.le_iff List.mem_cons_self hcons).mpr (of_decide_eq_true hnot)⟩
  refine List.pairwise_append.mpr ⟨hordered.filter _,
    List.pairwise_cons.mpr ⟨fun c hc ↦ (hhigh c hc).2, hordered.filter _⟩, ?_⟩
  intro c hc d hd
  obtain ⟨hcmem, hca⟩ := hlow c hc
  rcases List.mem_cons.mp hd with rfl | hd
  · exact hca
  · obtain ⟨hdmem, had⟩ := hhigh d hd
    exact hcmp.trans c hcmem a List.mem_cons_self d hdmem hca had

theorem perm_around (a : A) (cmp : A → A → ℤ) (entries : List A) :
    (entries.filter (fun c ↦ cmp c a < 0) ++ a :: entries.filter fun c ↦ 0 ≤ cmp c a).Perm
      (a :: entries) := by
  refine List.perm_middle.trans (List.Perm.cons a ?_)
  have hparts := List.filter_append_perm (fun c ↦ decide (cmp c a < 0)) entries
  simpa only [← not_lt, decide_not] using hparts

/-- The entries can be put in the order of a consistent comparator. -/
theorem exists_ordered (hcmp : Consistent cmp entries) :
    ∃ sorted : List A, sorted.Perm entries ∧ Ordered cmp sorted := by
  induction entries with
  | nil => exact ⟨[], List.Perm.refl [], List.Pairwise.nil⟩
  | cons a rest ih =>
    obtain ⟨sorted, hperm, hordered⟩ :=
      ih (hcmp.of_subset fun c hc ↦ List.mem_cons_of_mem a hc)
    have hsorted : Consistent cmp (a :: sorted) :=
      hcmp.of_subset fun c hc ↦ (hperm.cons a).subset hc
    exact ⟨_, (perm_around a cmp sorted).trans (hperm.cons a), ordered_around hsorted hordered⟩

/-- An entry can be put directly behind the entries that go strictly before it. -/
theorem exists_ordered_split (hcmp : Consistent cmp entries) {a : A} (ha : a ∈ entries) :
    ∃ low high, (low ++ a :: high).Perm entries ∧ Ordered cmp (low ++ a :: high) ∧
      (∀ c ∈ low, cmp c a < 0) ∧ low.length = before cmp entries a := by
  obtain ⟨first, second, rfl⟩ := List.append_of_mem ha
  have hfront : (a :: (first ++ second)).Perm (first ++ a :: second) := List.perm_middle.symm
  obtain ⟨sorted, hperm, hordered⟩ := exists_ordered
    (hcmp.of_subset fun c hc ↦ hfront.subset (List.mem_cons_of_mem a hc))
  have hsame : (a :: sorted).Perm (first ++ a :: second) := (hperm.cons a).trans hfront
  have hsorted : Consistent cmp (a :: sorted) := hcmp.of_subset fun c hc ↦ hsame.subset hc
  refine ⟨_, _, (perm_around a cmp sorted).trans hsame, ordered_around hsorted hordered, ?_, ?_⟩
  · intro c hc
    exact of_decide_eq_true (List.mem_filter.mp hc).2
  · have hself := hcmp.self_eq_zero ha
    rw [before, ← hsame.countP_eq, List.countP_cons_of_neg (by simp [hself]),
      List.countP_eq_length_filter]

/-- There is a routine that sorts, rearranges whatever it is given, and returns a given arrangement
of some entries, provided that it is in order if the comparator is consistent. -/
theorem exists_sorts_eq {arranged : List A} (hperm : arranged.Perm entries)
    (hordered : Consistent cmp entries → Ordered cmp arranged) :
    ∃ sort : (A → A → ℤ) → List A → List A, Sorts sort ∧
      (∀ cmp entries, (sort cmp entries).Perm entries) ∧ sort cmp entries = arranged := by
  classical
  have hsort (other : A → A → ℤ) (given : List A) : ∃ result : List A, result.Perm given ∧
      (Consistent other given → Ordered other result) ∧
      (other = cmp → given = entries → result = arranged) := by
    by_cases hgiven : other = cmp ∧ given = entries
    · obtain ⟨rfl, rfl⟩ := hgiven
      exact ⟨arranged, hperm, hordered, fun _ _ ↦ rfl⟩
    · by_cases hother : Consistent other given
      · obtain ⟨result, hresult, horder⟩ := exists_ordered hother
        exact ⟨result, hresult, fun _ ↦ horder, fun hcmp hsame ↦ absurd ⟨hcmp, hsame⟩ hgiven⟩
      · exact ⟨given, List.Perm.refl _, fun hyes ↦ absurd hyes hother,
          fun hcmp hsame ↦ absurd ⟨hcmp, hsame⟩ hgiven⟩
  choose sort hsortPerm hsortOrdered hsortEq using hsort
  exact ⟨sort, fun other given hother ↦ ⟨hsortPerm other given, hsortOrdered other given hother⟩,
    hsortPerm, hsortEq cmp entries rfl rfl⟩

end Order

/-! ### Selections -/

section Selections

variable {V : Type*} [LinearOrder V] (value : A → V)

/-- The selection holds `n` entries, or all there are, by non-increasing value; each stands in it at
most as often as among the entries, and no entry outside has a larger value than one inside. -/
structure IsTop (n : ℕ) (entries selected : List A) : Prop where
  length_eq : selected.length = min n entries.length
  pairwise : selected.Pairwise fun a b ↦ value b ≤ value a
  rest : ∃ others, (selected ++ others).Perm entries ∧
    ∀ a ∈ selected, ∀ b ∈ others, value b ≤ value a

/-- Every entry that can come out among the first `n` goes behind all entries of larger value. -/
def LargerFirst (cmp : A → A → ℤ) (n : ℕ) (entries : List A) : Prop :=
  ∀ a ∈ entries, before cmp entries a < n → ∀ b ∈ entries, value a < value b → cmp b a < 0

variable {value} {cmp : A → A → ℤ} {entries : List A} {n : ℕ}

/-- An entry that is not selected earlier than another has at most its value. -/
theorem IsTop.le_of_notMem {low high : List A} {a b : A}
    (htop : IsTop value n entries (low ++ a :: high)) (hb : b ∈ entries) (hlow : b ∉ low) :
    value b ≤ value a := by
  obtain ⟨others, hperm, hothers⟩ := htop.rest
  have ha : a ∈ low ++ a :: high := List.mem_append_right _ List.mem_cons_self
  rcases List.mem_append.mp (hperm.symm.subset hb) with hselected | hother
  · rcases List.mem_append.mp hselected with hbefore | hrest
    · exact absurd hbefore hlow
    · rcases List.mem_cons.mp hrest with rfl | hhigh
      · exact le_rfl
      · have htail := (List.pairwise_append.mp htop.pairwise).2.1
        exact (List.pairwise_cons.mp htail).1 b hhigh
  · exact hothers a ha b hother

/-- An entry among the first of an ordered list has few entries strictly before it. -/
theorem before_lt_of_mem_take (hcmp : Consistent cmp entries) {sorted : List A}
    (hperm : sorted.Perm entries) (hordered : Ordered cmp sorted) {a : A}
    (ha : a ∈ sorted.take n) : before cmp entries a < n := by
  obtain ⟨low, high, htake⟩ := List.append_of_mem ha
  have hsorted : sorted = low ++ a :: (high ++ sorted.drop n) := by
    rw [← List.cons_append, ← List.append_assoc, ← htake, List.take_append_drop]
  have hlength : low.length < n := by
    have hle := List.length_take_le n sorted
    rw [htake, List.length_append, List.length_cons] at hle
    omega
  have hmem : ∀ c ∈ sorted, c ∈ entries := fun c hc ↦ hperm.subset hc
  have htail : (a :: (high ++ sorted.drop n)).countP (fun c ↦ cmp c a < 0) = 0 := by
    rw [List.countP_eq_zero]
    intro c hc
    have hsub : ∀ d ∈ a :: (high ++ sorted.drop n), d ∈ sorted := fun d hd ↦
      hsorted ▸ List.mem_append_right low hd
    have hac : cmp a c ≤ 0 := by
      rcases List.mem_cons.mp hc with rfl | hrest
      · exact (hcmp.self_eq_zero (hmem _ (hsub _ hc))).le
      · rw [Ordered, hsorted] at hordered
        exact (List.pairwise_cons.mp (List.pairwise_append.mp hordered).2.1).1 c hrest
    have hca := (hcmp.le_iff (hmem a (hsub a List.mem_cons_self)) (hmem c (hsub c hc))).mp hac
    simpa using hca
  calc before cmp entries a
      = sorted.countP (fun c ↦ cmp c a < 0) := (hperm.countP_eq _).symm
    _ = low.countP (fun c ↦ cmp c a < 0) := by
        rw [hsorted, List.countP_append, htail, Nat.add_zero]
    _ ≤ low.length := List.countP_le_length
    _ < n := hlength

/-- The first entries of an ordered list are a selection when larger values go first. -/
theorem isTop_take (hcmp : Consistent cmp entries) (hlarger : LargerFirst value cmp n entries)
    {sorted : List A} (hperm : sorted.Perm entries) (hordered : Ordered cmp sorted) :
    IsTop value n entries (sorted.take n) := by
  have hmem : ∀ c ∈ sorted, c ∈ entries := fun c hc ↦ hperm.subset hc
  have hvalues : sorted.Pairwise fun a b ↦ before cmp entries a < n → value b ≤ value a := by
    refine List.Pairwise.imp_of_mem (fun {a b} ha hb hab hfirst ↦ ?_) hordered
    by_contra hlt
    have hba := hlarger a (hmem a ha) hfirst b (hmem b hb) (not_le.mp hlt)
    exact absurd ((hcmp.le_iff (hmem a ha) (hmem b hb)).mp hab) (not_le.mpr hba)
  rw [← List.take_append_drop n sorted, List.pairwise_append] at hvalues
  obtain ⟨hinside, -, hacross⟩ := hvalues
  have hfirst : ∀ a ∈ sorted.take n, before cmp entries a < n := fun a ha ↦
    before_lt_of_mem_take hcmp hperm hordered ha
  refine ⟨?_, ?_, sorted.drop n, ?_, ?_⟩
  · rw [List.length_take, hperm.length_eq]
  · exact List.Pairwise.imp_of_mem (fun {a b} ha _ hab ↦ hab (hfirst a ha)) hinside
  · rw [List.take_append_drop]
    exact hperm
  · exact fun a ha b hb ↦ hacross a ha b hb (hfirst a ha)

theorem isTop_nil (entries : List A) : IsTop value 0 entries [] where
  length_eq := (Nat.zero_min _).symm
  pairwise := List.Pairwise.nil
  rest := ⟨entries, List.Perm.refl _, fun _ ha ↦ absurd ha List.not_mem_nil⟩

/-- An arrangement that a sorting routine can return puts first, among the entries that are not
further to the front, one of the largest value. Assumes: every sorting routine selects. -/
theorem le_of_arranged
    (hall : ∀ sort : (A → A → ℤ) → List A → List A, Sorts sort →
      IsTop value n entries ((sort cmp entries).take n))
    {low high : List A} {a b : A} (hperm : (low ++ a :: high).Perm entries)
    (hordered : Consistent cmp entries → Ordered cmp (low ++ a :: high))
    (hlength : low.length < n) (hb : b ∈ entries) (hlow : b ∉ low) : value b ≤ value a := by
  obtain ⟨sort, hsorts, -, hsort⟩ := exists_sorts_eq hperm hordered
  have htop := hall sort hsorts
  obtain ⟨room, rfl⟩ := Nat.exists_eq_add_of_lt hlength
  have htake : (low ++ a :: high).take (low.length + room + 1) = low ++ a :: high.take room := by
    rw [Nat.add_assoc, List.take_length_add_append, List.take_succ_cons]
  rw [hsort, htake] at htop
  exact htop.le_of_notMem hb hlow

/-- Taking the first `n` entries selects, whatever the sorting routine does where its promise leaves
it a choice, exactly when no entry is asked for, or when the comparator is consistent and larger
values go first. Assumes: entries of the same value are the same to the comparator. -/
theorem isTop_take_iff (hties : ∀ a b, value a = value b → cmp a b = 0) :
    (∀ sort : (A → A → ℤ) → List A → List A, Sorts sort →
        IsTop value n entries ((sort cmp entries).take n)) ↔
      n = 0 ∨ (Consistent cmp entries ∧ LargerFirst value cmp n entries) := by
  constructor
  · intro hall
    rcases Nat.eq_zero_or_pos n with hzero | hpos
    · exact Or.inl hzero
    right
    have hcmp : Consistent cmp entries := by
      by_contra hnot
      have hle : ∀ a ∈ entries, ∀ b ∈ entries, value b ≤ value a := by
        intro a ha b hb
        obtain ⟨first, second, hsplit⟩ := List.append_of_mem ha
        have hperm : ([] ++ a :: (first ++ second)).Perm entries :=
          hsplit ▸ List.perm_middle.symm
        exact le_of_arranged hall hperm (fun hyes ↦ absurd hyes hnot) hpos hb List.not_mem_nil
      have hzero : ∀ a ∈ entries, ∀ b ∈ entries, cmp a b = 0 := fun a ha b hb ↦
        hties a b (le_antisymm (hle b hb a ha) (hle a ha b hb))
      refine hnot ⟨fun a ha b hb ↦ ?_, fun a ha b _ c hc _ _ ↦ (hzero a ha c hc).le⟩
      rw [hzero a ha b hb, hzero b hb a ha]
    refine ⟨hcmp, fun a ha hfirst b hb hlt ↦ ?_⟩
    obtain ⟨low, high, hperm, hordered, hlow, hlength⟩ := exists_ordered_split hcmp ha
    by_contra hnot
    have hle := le_of_arranged hall hperm (fun _ ↦ hordered) (hlength.trans_lt hfirst) hb
      fun hmem ↦ hnot (hlow b hmem)
    exact absurd hle (not_le.mpr hlt)
  · rintro (rfl | ⟨hcmp, hlarger⟩) sort hsort
    · rw [List.take_zero]
      exact isTop_nil entries
    · obtain ⟨hperm, hordered⟩ := hsort cmp entries hcmp
      exact isTop_take hcmp hlarger hperm hordered

end Selections

end Homework.Library.Selection
