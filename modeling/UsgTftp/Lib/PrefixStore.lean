import Mathlib.Data.List.Basic
import Mathlib.Logic.Function.Basic

set_option autoImplicit false

/-! # Stores with hierarchical keys

A store has a value for some keys, which are lists. It is changed by putting a value at a key, and
by removing a key with all keys below it. What a log of such operations leaves at a key is decided
by the last one that touches it (`replay_put`, `replay_remove`, `replay_untouched`).
-/

namespace PrefixStore

variable {κ β : Type}

abbrev Store (κ β : Type) := List κ → Option β

inductive Op (κ β : Type) where
  | put (key : List κ) (value : β)
  | remove (key : List κ)
  deriving DecidableEq, Repr

namespace Op

/-- The operation may change what is at the key. -/
def Touches : Op κ β → List κ → Prop
  | .put key _, k => k = key
  | .remove key, k => key <+: k

variable [DecidableEq κ]

def apply (st : Store κ β) : Op κ β → Store κ β
  | .put key value => Function.update st key (some value)
  | .remove key => fun k => if key <+: k then none else st k

@[simp] theorem apply_put (st : Store κ β) (key : List κ) (value : β) :
    (Op.put key value).apply st = Function.update st key (some value) := rfl

theorem apply_of_not_touches {op : Op κ β} {k : List κ} (h : ¬ op.Touches k) (st : Store κ β) :
    op.apply st k = st k := by
  cases op with
  | put key value => exact Function.update_of_ne h _ _
  | remove key => exact if_neg h

/-- What is removed need not have been put before. -/
theorem apply_remove_put (st : Store κ β) (key : List κ) (value : β) :
    (Op.remove key).apply ((Op.put key value).apply st) = (Op.remove key).apply st := by
  funext k
  show (if key <+: k then none else Function.update st key (some value) k)
    = if key <+: k then none else st k
  split_ifs with h
  · rfl
  · refine Function.update_of_ne ?_ _ _
    rintro rfl
    exact h List.prefix_rfl

end Op

/-! ## Logs -/

variable [DecidableEq κ]

/-- The store after a log of operations, the oldest first. -/
def replay (st : Store κ β) (ops : List (Op κ β)) : Store κ β := ops.foldl Op.apply st

@[simp] theorem replay_nil (st : Store κ β) : replay st [] = st := rfl

@[simp] theorem replay_cons (st : Store κ β) (op : Op κ β) (ops : List (Op κ β)) :
    replay st (op :: ops) = replay (op.apply st) ops := rfl

theorem replay_append (st : Store κ β) (ops ops' : List (Op κ β)) :
    replay st (ops ++ ops') = replay (replay st ops) ops' := List.foldl_append

/-- **What no operation touches** stays. -/
theorem replay_untouched {ops : List (Op κ β)} {k : List κ} (h : ∀ op ∈ ops, ¬ op.Touches k) :
    ∀ st : Store κ β, replay st ops k = st k := by
  induction ops with
  | nil => intro st; rfl
  | cons op ops ih =>
      intro st
      calc
        replay st (op :: ops) k = replay (op.apply st) ops k := rfl
        _ = op.apply st k := ih (fun op' h' => h op' (List.mem_cons_of_mem _ h')) _
        _ = st k := Op.apply_of_not_touches (h op List.mem_cons_self) st

/-- **The last value put** is there, if nothing touched the key since. -/
theorem replay_put {ops ops' : List (Op κ β)} {k : List κ} {value : β}
    (h : ∀ op ∈ ops', ¬ op.Touches k) (st : Store κ β) :
    replay st (ops ++ .put k value :: ops') k = some value := by
  calc
    replay st (ops ++ .put k value :: ops') k
        = replay ((Op.put k value).apply (replay st ops)) ops' k := by
      rw [replay_append, replay_cons]
    _ = (Op.put k value).apply (replay st ops) k := replay_untouched h _
    _ = some value := Function.update_self _ _ _

/-- **What was removed** is gone, if nothing was put there since. -/
theorem replay_remove {ops ops' : List (Op κ β)} {key k : List κ} (hk : key <+: k)
    (h : ∀ op ∈ ops', ¬ op.Touches k) (st : Store κ β) :
    replay st (ops ++ .remove key :: ops') k = none := by
  calc
    replay st (ops ++ .remove key :: ops') k
        = replay ((Op.remove key).apply (replay st ops)) ops' k := by
      rw [replay_append, replay_cons]
    _ = (Op.remove key).apply (replay st ops) k := replay_untouched h _
    _ = none := if_pos hk

/-! ## Keys that cannot be read -/

/-- The store without the keys for which `hidden` holds. -/
def mask (hidden : List κ → Bool) (st : Store κ β) : Store κ β :=
  fun k => if hidden k then none else st k

section Mask

variable {hidden : List κ → Bool}

omit [DecidableEq κ] in
theorem mask_of_visible {k : List κ} (h : hidden k = false) (st : Store κ β) :
    mask hidden st k = st k := by
  rw [mask, h]
  rfl

theorem mask_apply {op : Op κ β} (h : ∀ key value, op = .put key value → hidden key = false)
    (st : Store κ β) : mask hidden (op.apply st) = op.apply (mask hidden st) := by
  funext k
  cases op with
  | remove key =>
      show (if hidden k then none else if key <+: k then none else st k)
        = if key <+: k then none else if hidden k then none else st k
      split_ifs <;> rfl
  | put key value =>
      show (if hidden k then none else Function.update st key (some value) k)
        = Function.update (mask hidden st) key (some value) k
      by_cases hk : k = key
      · rw [hk, Function.update_self, Function.update_self, h key value rfl]
        rfl
      · rw [Function.update_of_ne hk, Function.update_of_ne hk]
        rfl

/-- **Operations on what can be read** do there what they do to the whole store. -/
theorem mask_replay {ops : List (Op κ β)}
    (h : ∀ key value, Op.put key value ∈ ops → hidden key = false) :
    ∀ st : Store κ β, mask hidden (replay st ops) = replay (mask hidden st) ops := by
  induction ops with
  | nil => intro st; rfl
  | cons op ops ih =>
      intro st
      calc
        mask hidden (replay st (op :: ops)) = mask hidden (replay (op.apply st) ops) := rfl
        _ = replay (mask hidden (op.apply st)) ops :=
          ih (fun key value hmem => h key value (List.mem_cons_of_mem _ hmem)) _
        _ = replay (op.apply (mask hidden st)) ops := by
          rw [mask_apply fun key value hop => h key value (hop ▸ List.mem_cons_self)]

end Mask

end PrefixStore
