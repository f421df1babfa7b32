import Mathlib

/-!
# Lanes of queues

A lane is a list of queues, from the one next to the exit back to the one at the entrance. What it holds, in order, is
not changed by moving the head of a queue to the end of the next one.
-/

namespace GvsocPulp.Lib

open List

variable {κ α : Type*} {c c' : κ → List α} {as bs : List κ} {a b : κ} {x : α} {rest : List α}

/-- The queues that do not change. -/
theorem flatMap_keep {lane : List κ} (h : ∀ q ∈ lane, c' q = c q) : lane.flatMap c' = lane.flatMap c :=
  flatMap_congr h

/-- The head of `a` moves to the end of the next queue `b`. -/
theorem flatMap_move (hnd : (bs ++ b :: a :: as).Nodup) (ha : c a = x :: rest) (ha' : c' a = rest)
    (hb : c' b = c b ++ [x]) (hother : ∀ q, q ≠ a → q ≠ b → c' q = c q) :
    (bs ++ b :: a :: as).flatMap c' = (bs ++ b :: a :: as).flatMap c := by
  obtain ⟨-, hnd', hdisj⟩ := nodup_append.1 hnd
  obtain ⟨hbmem, hnd'⟩ := nodup_cons.1 hnd'
  obtain ⟨hamem, -⟩ := nodup_cons.1 hnd'
  have hfront : bs.flatMap c' = bs.flatMap c := flatMap_keep fun q hq =>
    hother q (hdisj q hq a (by simp)) (hdisj q hq b (by simp))
  have hback : as.flatMap c' = as.flatMap c := flatMap_keep fun q hq =>
    hother q (fun h => hamem (h ▸ hq)) (fun h => hbmem (h ▸ mem_cons_of_mem _ hq))
  simp [hfront, hback, ha, ha', hb]

/-- The head of the queue next to the exit leaves the lane. -/
theorem flatMap_leave (hnd : (b :: as).Nodup) (hb : c b = x :: rest) (hb' : c' b = rest)
    (hother : ∀ q, q ≠ b → c' q = c q) : (b :: as).flatMap c = x :: (b :: as).flatMap c' := by
  have hback : as.flatMap c' = as.flatMap c := flatMap_keep fun q hq =>
    hother q fun h => (nodup_cons.1 hnd).1 (h ▸ hq)
  simp [hback, hb, hb']

theorem flatMap_enter (hnd : (bs ++ [a]).Nodup) (ha : c' a = c a ++ [x]) (hother : ∀ q, q ≠ a → c' q = c q) :
    (bs ++ [a]).flatMap c' = (bs ++ [a]).flatMap c ++ [x] := by
  have hfront : bs.flatMap c' = bs.flatMap c := flatMap_keep fun q hq =>
    hother q ((nodup_append.1 hnd).2.2 q hq a (by simp))
  simp [hfront, ha]

end GvsocPulp.Lib
