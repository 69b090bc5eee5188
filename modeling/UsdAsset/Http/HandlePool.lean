import UsdAsset.Lib.Machine

/-!
# The pool of handles

Concurrent requests check the easy handles of a transport out of its `HandlePool` and in again.
-/

namespace UsdAsset.Http

/-- The idle handles, the back of the vector first, and those that requests have checked out. -/
structure HandlePool where
  idle : List ℕ := []
  inUse : List ℕ := []
  deriving DecidableEq

/-- `Acquire` takes an idle handle, or finds none and some time later initialises one. -/
inductive HandleEvent where
  | take
  | init (handle : ℕ)
  | release (handle : ℕ)

namespace HandlePool

def maxIdle : ℕ := 16

def step (pool : HandlePool) : HandleEvent → Option HandlePool
  | .take =>
      match pool.idle with
      | [] => none
      | handle :: rest => some ⟨rest, handle :: pool.inUse⟩
  | .init handle =>
      -- The client does not answer a handle that has not been cleaned up.
      if handle ∈ pool.inUse ++ pool.idle then none
      else some { pool with inUse := handle :: pool.inUse }
  | .release handle =>
      if handle ∉ pool.inUse then none
      else if pool.idle.length ≥ maxIdle then
        some { pool with inUse := pool.inUse.erase handle }
      else some ⟨handle :: pool.idle, pool.inUse.erase handle⟩

/-- A handle is in one place, and few are idle. -/
def Sound (pool : HandlePool) : Prop :=
  (pool.inUse ++ pool.idle).Nodup ∧ pool.idle.length ≤ maxIdle

theorem Sound.step {pool next : HandlePool} {event : HandleEvent} (sound : pool.Sound)
    (stepped : pool.step event = some next) : next.Sound := by
  rcases pool with ⟨idle, inUse⟩
  rcases sound with ⟨apart, few⟩
  cases event with
  | take =>
    cases idle with
    | nil => cases stepped
    | cons handle rest =>
      cases stepped
      exact ⟨List.perm_middle.nodup_iff.mp apart, Nat.le_of_succ_le few⟩
  | init handle =>
    rcases Option.ite_none_left_eq_some.mp stepped with ⟨fresh, taken⟩
    cases taken
    exact ⟨List.nodup_cons.mpr ⟨fresh, apart⟩, few⟩
  | release handle =>
    rcases Option.ite_none_left_eq_some.mp stepped with ⟨held, stepped⟩
    split at stepped
    · cases stepped
      exact ⟨apart.sublist (List.erase_sublist.append_right _), few⟩
    · rename_i room
      cases stepped
      refine ⟨List.perm_middle.nodup_iff.mpr ?_, Nat.lt_of_not_ge room⟩
      have back := List.perm_cons_erase (not_not.mp held)
      exact (back.append_right idle).nodup_iff.mp apart

end HandlePool

end UsdAsset.Http
