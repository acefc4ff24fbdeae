import ScriptHost.Engine.Step

/-!
# Holding a script

What edits and masks do to an instance by what its script is held for. Nobody
holds it: they take it for an errand, and what they have for it is done at once.
A handler holds it: it stays the handler's, and what they have for it is kept.
-/

namespace ScriptHost

namespace Instance

variable {i : Instance}

theorem held_iff : i.held = true ↔ ∃ h, i.holder = some h := Option.isSome_iff_exists

theorem unheld_iff : i.held = false ↔ i.holder = none := by
  rw [held, Option.isSome_eq_false_iff, Option.isNone_iff_eq_none]

theorem held_of_holder {h : Holder} (hi : i.holder = some h) : i.held = true :=
  held_iff.mpr ⟨h, hi⟩

/-! ## Nobody holds the script -/

theorem keepsEdits_of_unheld (h : i.held = false) : i.keepsEdits = false := by
  simp [keepsEdits, h]

theorem edit_of_applies (h : i.keepsEdits = false) (e : Edit) : i.edit e =
    { i with
      live := i.apply e, vars := i.apply e, pendingEdit := none
      holder := some (.errand .edit) } := by
  simp [edit, h]

/-- A script that nobody held is free again when the errand is done. -/
theorem letGo_edit (h : i.held = false) (e : Edit) : (i.edit e).letGo .edit =
    { i with live := i.apply e, vars := i.apply e, pendingEdit := none } := by
  simp [edit_of_applies (keepsEdits_of_unheld h), letGo, unheld_iff.mp h]

theorem letGo_publish (h : i.held = false) : i.publish.letGo .mask = i := by
  have free : i.holder = none := unheld_iff.mp h
  cases i
  cases free
  simp [publish, letGo, held]

/-! ## Somebody holds the script -/

/-- An edit that is not kept for later finds no handler at work. -/
theorem no_handler_of_applies (h : i.keepsEdits = false) : i.holder ≠ some .handler := fun hi => by
  simp [keepsEdits, held, hi] at h

theorem keepsEdits_of_handler (h : i.holder = some .handler) : i.keepsEdits = true := by
  simp [keepsEdits, held, h]

theorem edit_of_keeps (h : i.keepsEdits = true) (e : Edit) :
    i.edit e = { i with vars := i.preview e, pendingEdit := some e } := by
  simp [edit, h]

theorem publish_of_held (h : i.held = true) : i.publish = { i with maskStale := true } := by
  obtain ⟨k, hk⟩ := held_iff.mp h
  simp [publish, h, hk]

theorem holder_edit (h : i.holder = some .handler) (e : Edit) :
    (i.edit e).holder = some .handler := by
  rw [edit_of_keeps (keepsEdits_of_handler h)]; exact h

theorem holder_publish {k : Holder} (h : i.holder = some k) : i.publish.holder = some k := by
  rw [publish_of_held (held_of_holder h)]; exact h

theorem letGo_of_handler (h : i.holder = some .handler) (e : Errand) : i.letGo e = i := by
  cases i
  cases h
  rfl

end Instance

/-! ## Errands -/

namespace Instr

variable (m : Machine) (r : Reply) (id : Nat)

theorem next_edit (e : Edit) :
    ((edit id e).exec m r).next = [] ∨ ((edit id e).exec m r).next = [.letGo id .edit] := by
  simp only [exec, leads]
  split
  · split
    · exact .inl rfl
    · exact .inr rfl
  · exact .inl rfl

theorem next_publishMask : ((publishMask id).exec m r).next = [] ∨
    ((publishMask id).exec m r).next = [.letGo id .mask] := by
  simp only [exec, leads]
  split
  · split
    · exact .inl rfl
    · exact .inr rfl
  · exact .inl rfl

end Instr

end ScriptHost
