import Mathlib.Data.List.Basic
import Mathlib.Logic.Function.Basic

/-!
# Bafs.Lib.WriteLog

Logs of writes to an array of cells.

`replay ws m` is the array `m` after the writes `ws`, one after the other, and a
loss of power after `n` of them leaves `replay (ws.take n) m`.  A cell that no
write names keeps its contents (`replay_of_forall_ne`); a cell that one write
names holds what was written (`replay_of_mem`).
-/

namespace WriteLog

variable {α β : Type} [DecidableEq α] {ws : List (α × β)} {m : α → Option β} {a : α} {b : β}

/-- The array after the writes. -/
def replay (ws : List (α × β)) (m : α → Option β) : α → Option β :=
  ws.foldl (fun m w => Function.update m w.1 (some w.2)) m

@[simp] theorem replay_nil (m : α → Option β) : replay [] m = m := rfl

@[simp] theorem replay_cons (w : α × β) (ws : List (α × β)) (m : α → Option β) :
    replay (w :: ws) m = replay ws (Function.update m w.1 (some w.2)) := rfl

theorem replay_append (ws vs : List (α × β)) (m : α → Option β) :
    replay (ws ++ vs) m = replay vs (replay ws m) := List.foldl_append

/-- A cell that is not written keeps its contents. -/
theorem replay_of_forall_ne (h : ∀ w ∈ ws, w.1 ≠ a) : replay ws m a = m a := by
  induction ws generalizing m with
  | nil => rfl
  | cons w ws ih =>
      obtain ⟨hw, hws⟩ := List.forall_mem_cons.mp h
      rw [replay_cons, ih hws, Function.update_of_ne hw.symm]

/-- A cell that is written once holds what was written. -/
theorem replay_of_mem (hd : (ws.map Prod.fst).Nodup) (h : (a, b) ∈ ws) :
    replay ws m a = some b := by
  induction ws generalizing m with
  | nil => exact absurd h List.not_mem_nil
  | cons w ws ih =>
      rw [List.map_cons, List.nodup_cons] at hd
      rw [replay_cons]
      rcases List.mem_cons.mp h with rfl | h
      · rw [replay_of_forall_ne, Function.update_self]
        intro w hw hne
        have hmem := List.mem_map_of_mem (f := Prod.fst) hw
        exact hd.1 (hne ▸ hmem)
      · exact ih hd.2 h

/-- Writing what is there changes nothing. -/
theorem replay_of_forall_eq (h : ∀ w ∈ ws, m w.1 = some w.2) : replay ws m = m := by
  induction ws with
  | nil => rfl
  | cons w ws ih =>
      obtain ⟨hw, hws⟩ := List.forall_mem_cons.mp h
      rw [replay_cons, ← hw, Function.update_eq_self, ih hws]

/-- What was in a cell that is written does not matter. -/
theorem replay_congr {m' : α → Option β} (h : (∃ w ∈ ws, w.1 = a) ∨ m a = m' a) :
    replay ws m a = replay ws m' a := by
  induction ws generalizing m m' with
  | nil => exact h.resolve_left fun ⟨_, hw, _⟩ => List.not_mem_nil hw
  | cons w ws ih =>
      rw [replay_cons, replay_cons]
      refine ih ?_
      by_cases ha : a = w.1
      · exact .inr (by rw [ha, Function.update_self, Function.update_self])
      · rw [Function.update_of_ne ha, Function.update_of_ne ha]
        refine h.imp_left fun ⟨x, hx, hxa⟩ => ⟨x, ?_, hxa⟩
        exact (List.mem_cons.mp hx).resolve_left fun heq => ha (heq ▸ hxa.symm)

/-- Writes make no cell unreadable. -/
theorem isSome_replay (h : (m a).isSome) : (replay ws m a).isSome := by
  induction ws generalizing m with
  | nil => exact h
  | cons w ws ih =>
      rw [replay_cons]
      refine ih ?_
      by_cases ha : a = w.1
      · rw [ha, Function.update_self]
        rfl
      · rwa [Function.update_of_ne ha]

end WriteLog
