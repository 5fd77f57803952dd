import Mathlib.Algebra.Group.Nat.Defs

set_option autoImplicit false

/-! A harness counts its live sessions or sandboxes in an `AtomicUsize`, whose additions and subtractions wrap
around. A slot is reserved by counting up first, and down again where the cap had been reached. -/

namespace AtomrAgents

def usizeSize : Nat := 2 ^ 64

namespace AtomicUsize

-- `fetch_add(1)` and `fetch_sub(1)`.
def fetchAdd (n : Nat) : Nat := if n + 1 = usizeSize then 0 else n + 1

def fetchSub (n : Nat) : Nat := if n = 0 then usizeSize - 1 else n - 1

variable {n : Nat}

theorem fetchAdd_of_lt (room : n + 1 < usizeSize) : fetchAdd n = n + 1 := if_neg (Nat.ne_of_lt room)

theorem fetchSub_zero : fetchSub 0 = usizeSize - 1 := if_pos rfl

theorem fetchSub_of_pos (positive : 0 < n) : fetchSub n = n - 1 := if_neg (Nat.ne_of_gt positive)

theorem fetchSub_fetchAdd (n : Nat) : fetchSub (fetchAdd n) = n := by
  rw [fetchAdd]
  split
  · next last =>
    rw [fetchSub_zero]
    omega
  · exact fetchSub_of_pos (Nat.succ_pos n)

end AtomicUsize

def reserve (cap live : Nat) : Bool × Nat :=
  if cap ≤ live then (false, AtomicUsize.fetchSub (AtomicUsize.fetchAdd live))
  else (true, AtomicUsize.fetchAdd live)

theorem reserve_full {cap live : Nat} (full : cap ≤ live) : reserve cap live = (false, live) := by
  rw [reserve, if_pos full, AtomicUsize.fetchSub_fetchAdd]

theorem reserve_free {cap live : Nat} (fits : cap < usizeSize) (free : live < cap) :
    reserve cap live = (true, live + 1) := by
  rw [reserve, if_neg (Nat.not_le.mpr free), AtomicUsize.fetchAdd_of_lt (by omega)]

structure Accounted (cap live registered starting : Nat) : Prop where
  counted : live = registered + starting
  capped : live ≤ cap

namespace Accounted

variable {cap live registered starting registered' starting' : Nat}

theorem reserved (accounted : Accounted cap live registered starting) (free : live < cap) :
    Accounted cap (live + 1) registered (starting + 1) where
  counted := by
    have := accounted.counted
    omega
  capped := free

theorem settled (accounted : Accounted cap live registered starting)
    (same : registered' + starting' = registered + starting) :
    Accounted cap live registered' starting' where
  counted := accounted.counted.trans same.symm
  capped := accounted.capped

theorem released (accounted : Accounted cap live registered starting)
    (gone : registered' + starting' + 1 = registered + starting) :
    Accounted cap (AtomicUsize.fetchSub live) registered' starting' := by
  obtain ⟨counted, capped⟩ := accounted
  rw [AtomicUsize.fetchSub_of_pos (by omega)]
  constructor <;> omega

end Accounted

end AtomrAgents
