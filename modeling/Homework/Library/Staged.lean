import Mathlib.Data.List.Basic
import Mathlib.Data.List.Nodup

/-!
# Acquisition in stages

A component acquires one resource after another. When one is refused, those it has are released in
the reverse order, and nothing else is. To acquire what is held, or to release what is not, is a
misuse.

If the resources are distinct and none is held before, there is no misuse, and afterwards either all
are held or as many as before (`acquireAll_eq`). Releasing all in the reverse order then leaves what
was held at the start (`releaseAll_append`).
-/

set_option autoImplicit false
set_option relaxedAutoImplicit false

namespace Homework.Library.Staged

/-- The acquisition of a resource that is held, or the release of one that is not. -/
inductive Misuse where
  | alreadyHeld
  | notHeld
deriving DecidableEq, Repr

section Stages

variable {R : Type*} [DecidableEq R]

/-- Acquires a resource. -/
def acquire (resource : R) (held : List R) : Except Misuse (List R) :=
  if resource ∈ held then .error .alreadyHeld else .ok (resource :: held)

/-- Releases a resource. -/
def release (resource : R) (held : List R) : Except Misuse (List R) :=
  if resource ∈ held then .ok (held.erase resource) else .error .notHeld

/-- Releases resources in order. -/
def releaseAll : List R → List R → Except Misuse (List R)
  | [], held => .ok held
  | resource :: rest, held => do
    let held ← release resource held
    releaseAll rest held

/-- Acquires resources in order, the first of them last in `done`, until one is refused. Gives
whether all were granted, and what is held then. -/
def acquireAll (granted : R → Bool) : List R → List R → List R → Except Misuse (Bool × List R)
  | _, [], held => .ok (true, held)
  | done, resource :: rest, held =>
    if granted resource then do
      let held ← acquire resource held
      acquireAll granted (resource :: done) rest held
    else do
      let held ← releaseAll done held
      return (false, held)

theorem acquire_of_notMem {resource : R} {held : List R} (hnotMem : resource ∉ held) :
    acquire resource held = .ok (resource :: held) := if_neg hnotMem

@[simp] theorem release_cons (resource : R) (held : List R) :
    release resource (resource :: held) = .ok held := by
  rw [release, if_pos List.mem_cons_self, List.erase_cons_head]

/-- What was acquired last is released first. -/
theorem releaseAll_append (first second : List R) :
    releaseAll first (first ++ second) = .ok second := by
  induction first with
  | nil => rfl
  | cons resource rest ih =>
    rw [releaseAll, List.cons_append, release_cons]
    exact ih

/-- Everything that was acquired is released again. -/
theorem acquireAll_from (granted : R → Bool) {done stages held : List R} (hnodup : stages.Nodup)
    (hfresh : ∀ resource ∈ stages, resource ∉ done ++ held) :
    acquireAll granted done stages (done ++ held) =
      .ok (if stages.all granted then (true, stages.reverse ++ done ++ held)
        else (false, held)) := by
  induction stages generalizing done with
  | nil => rfl
  | cons resource rest ih =>
    rw [acquireAll]
    by_cases hgranted : granted resource = true
    · have hnext : ∀ later ∈ rest, later ∉ (resource :: done) ++ held := by
        intro later hlater hmem
        rcases List.mem_cons.mp hmem with rfl | hold
        · exact (List.nodup_cons.mp hnodup).1 hlater
        · exact hfresh later (List.mem_cons_of_mem _ hlater) hold
      have hrest := ih (List.nodup_cons.mp hnodup).2 hnext
      rw [if_pos hgranted, acquire_of_notMem (hfresh resource List.mem_cons_self)]
      simp only [List.all_cons, hgranted, Bool.true_and, List.reverse_cons, List.append_assoc,
        List.singleton_append] at hrest ⊢
      exact hrest
    · rw [if_neg hgranted, releaseAll_append, List.all_cons]
      simp only [hgranted, Bool.false_and]
      rfl

/-- Either everything is acquired or nothing. Assumes: the resources are distinct and not held. -/
theorem acquireAll_eq (granted : R → Bool) {stages held : List R} (hnodup : stages.Nodup)
    (hfresh : ∀ resource ∈ stages, resource ∉ held) :
    acquireAll granted [] stages held =
      .ok (if stages.all granted then (true, stages.reverse ++ held) else (false, held)) := by
  have hall : acquireAll granted [] stages ([] ++ held) = _ :=
    acquireAll_from granted hnodup hfresh
  rwa [List.append_nil] at hall

end Stages

end Homework.Library.Staged
