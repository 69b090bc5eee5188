import Mathlib.Algebra.Ring.Nat
import Mathlib.Data.List.Basic
import Mathlib.Data.List.Nodup

/-!
# The order of last use

A history lists the uses of keys, the latest first, so the position of a key in
it says how long ago the key was last used.  A list that moves a key to its front
at every use stands in that order.
-/

namespace Recency

universe u

variable {Key : Type u} [DecidableEq Key] {uses keys others : List Key} {key : Key}

/-- The keys were all used, and the more recently used stand first. -/
structure Ordered (uses keys : List Key) : Prop where
  used : ∀ key ∈ keys, key ∈ uses
  ordered : keys.Pairwise fun newer older => uses.idxOf newer < uses.idxOf older

theorem ordered_nil (uses : List Key) : Ordered uses [] := ⟨nofun, List.Pairwise.nil⟩

theorem Ordered.sublist (ordered : Ordered uses keys) (kept : others.Sublist keys) :
    Ordered uses others :=
  ⟨fun key keyMem => ordered.used key (kept.subset keyMem), ordered.ordered.sublist kept⟩

theorem Ordered.nodup (ordered : Ordered uses keys) : keys.Nodup := by
  apply ordered.ordered.imp
  rintro newer _ before rfl
  exact Nat.lt_irrefl _ before

theorem idxOf_cons_of_ne {used : Key} (other : key ≠ used) :
    (used :: uses).idxOf key = uses.idxOf key + 1 :=
  List.idxOf_cons_ne uses other.symm

theorem Ordered.use_elsewhere (ordered : Ordered uses keys) {used : Key} (absent : used ∉ keys) :
    Ordered (used :: uses) keys := by
  constructor
  · intro key keyMem
    exact List.mem_cons_of_mem _ (ordered.used key keyMem)
  · apply ordered.ordered.imp_of_mem
    intro newer older newerMem olderMem before
    rw [idxOf_cons_of_ne (ne_of_mem_of_not_mem newerMem absent),
      idxOf_cons_of_ne (ne_of_mem_of_not_mem olderMem absent)]
    exact Nat.succ_lt_succ before

theorem Ordered.use (ordered : Ordered uses keys) (used : Key) :
    Ordered (used :: uses) (used :: keys.erase used) := by
  have absent : used ∉ keys.erase used := ordered.nodup.not_mem_erase
  have rest := (ordered.sublist (List.erase_sublist (a := used))).use_elsewhere absent
  constructor
  · intro key keyMem
    rcases List.mem_cons.mp keyMem with rfl | restMem
    · exact List.mem_cons_self
    · exact rest.used key restMem
  · refine List.pairwise_cons.mpr ⟨?_, rest.ordered⟩
    intro older olderMem
    rw [List.idxOf_cons_self, idxOf_cons_of_ne (ne_of_mem_of_not_mem olderMem absent)]
    exact Nat.succ_pos _

end Recency
