import ScriptHost.Proofs.Engine.Twins

/-!
# In step

`Machine.InStep a ρ base base' m m'`: the same work on an item has made `m` of `base` and
`m'` of `base'`. The two are twins in the item, and each still agrees with what it
has come of on every other. The lemmas here say of each thing that can be done to
an instance that it keeps two machines in step, if it is done to the instance in
the one and to its counterpart in the other, and that it answers the same in both.
-/

namespace ScriptHost

namespace Machine

structure InStep (a : Uuid) (ρ : Renumbering) (base base' m m' : Machine) : Prop where
  twins : Twins a ρ m m'
  setting : m.setting = base.setting
  left : ∀ {c : Uuid}, c ≠ a → Agrees c base m
  right : ∀ {c : Uuid}, c ≠ a → Agrees c base' m'

variable {a : Uuid} {ρ : Renumbering} {base base' m m' n n' : Machine} {id : Nat} {i : Instance}

namespace InStep

theorem refl (T : Twins a ρ m m') : InStep a ρ m m' m m' :=
  ⟨T, rfl, fun _ => .refl _ m, fun _ => .refl _ m'⟩

/-- A change that keeps the twins twins and leaves the other items alone in both. -/
theorem next (B : InStep a ρ base base' m m') (T : Twins a ρ n n') (hs : n.setting = m.setting)
    (hl : ∀ {c}, c ≠ a → Agrees c m n) (hr : ∀ {c}, c ≠ a → Agrees c m' n') :
    InStep a ρ base base' n n' :=
  ⟨T, hs.trans B.setting, fun h => (B.left h).trans (hl h), fun h => (B.right h).trans (hr h)⟩

theorem ite {c : Prop} [Decidable c] {k k' : Machine} (h : InStep a ρ base base' n n')
    (h' : InStep a ρ base base' k k') :
    InStep a ρ base base' (if c then n else k) (if c then n' else k') := by
  split
  · exact h
  · exact h'

section Parts

variable (B : InStep a ρ base base' m m')

include B

theorem note (x y : Note) : InStep a ρ base base' (m.note x) (m'.note y) :=
  B.next (B.twins.note x y) rfl (fun _ => .of_eq rfl rfl rfl rfl) fun _ => .of_eq rfl rfl rfl rfl

theorem revise {f : Instance → Instance} (h : m.Of a id) (hi : ∀ i, (f i).item = i.item)
    (hg : ∀ i, (f i).renumber ρ = f (i.renumber ρ))
    (hc : ∀ i, (f i).slot.current = i.slot.current ∨ (f i).slot.current = none) :
    InStep a ρ base base' (m.modify id f) (m'.modify (ρ.id id) f) :=
  B.next (B.twins.revise h hi hg hc) rfl (fun hne => .modify hne h hi)
    fun hne => .modify hne (B.twins.of h) hi

theorem setPhase {n : Nat} (h : m.JobOf a n) (p : Phase) :
    InStep a ρ base base' (m.setPhase n p) (m'.setPhase (ρ.job n) p) :=
  B.next (B.twins.setPhase h p) rfl (fun hne => .modifyJob hne h fun _ => rfl)
    fun hne => .modifyJob hne (B.twins.jobOf h) fun _ => rfl

theorem trip {n : Nat} (h : m.JobOf a n) :
    InStep a ρ base base' (m.trip n) (m'.trip (ρ.job n)) :=
  B.next (B.twins.trip h) rfl (fun hne => .modifyJob hne h fun _ => rfl)
    fun hne => .modifyJob hne (B.twins.jobOf h) fun _ => rfl

theorem requestTurn (h : m.Of a id) :
    InStep a ρ base base' (m.requestTurn id) (m'.requestTurn (ρ.id id)) :=
  B.next (B.twins.requestTurn h) (setting_requestTurn m id) (fun hne => .requestTurn hne h)
    fun hne => .requestTurn hne (B.twins.of h)

theorem append (ha : i.item = a) (hc : i.slot.current = none) :
    InStep a ρ base base' { m with instances := m.instances ++ [i] }
      { m' with instances := m'.instances ++ [i] } :=
  B.next (B.twins.append hc) rfl (fun hne => .append hne ha) fun hne => .append hne ha

theorem unregister : InStep a ρ base base' (m.unregister a) (m'.unregister a) :=
  B.next B.twins.unregister rfl (fun hne => .unregister hne) fun hne => .unregister hne

theorem register (h : m.Of a id) :
    InStep a ρ base base' (m.register a id) (m'.register a (ρ.id id)) :=
  B.next (B.twins.register h) rfl (fun hne => .register hne) fun hne => .register hne

theorem write (data : Bytes) : InStep a ρ base base' (m.write a data).1 (m'.write a data).1 :=
  B.next (B.twins.write data).1 (setting_write m a data) (fun hne => .write hne data)
    fun hne => .write hne data

theorem remove : InStep a ρ base base' (m.remove a).1 (m'.remove a).1 :=
  B.next B.twins.remove.1 (setting_remove m a) (fun hne => .remove hne) fun hne => .remove hne

theorem cancel {n : Nat} (h : m.JobOf a n) :
    InStep a ρ base base' (m.cancel n) (m'.cancel (ρ.job n)) := by
  unfold Machine.cancel
  simp only [B.twins.canCancel h]
  exact .ite ((B.note _ _).setPhase h _) (B.note _ _)

theorem abort {n : Nat} (h : m.JobOf a n) :
    InStep a ρ base base' (m.abort n) (m'.abort (ρ.job n)) := by
  have noted := B.note (.abort n) (.abort (ρ.job n))
  have running : (m'.note (.abort (ρ.job n))).abortsRunning = (m.note (.abort n)).abortsRunning :=
    congrArg Setting.abortsRunning B.twins.setting
  have phase : ((m'.note (.abort (ρ.job n))).job? (ρ.job n)).map Job.phase =
      ((m.note (.abort n)).job? n).map Job.phase := by
    obtain ⟨j, hj, ho⟩ := h
    have hj' := B.twins.job? hj ho
    change (m'.job? _).map _ = (m.job? _).map _
    rw [hj, hj']
    rfl
  unfold Machine.abort
  simp only [running, phase]
  refine .ite (noted.trip h) ?_
  split
  · exact noted.setPhase h _
  · exact (noted.note _ _).trip h
  · exact noted

end Parts

/-! ## The state machine of an instance -/

section Sections

variable (B : InStep a ρ base base' m m') (hi : m.get? id = some i) (ha : i.item = a)

include B hi ha

theorem start : InStep a ρ base base' (m.start id i) (m'.start (ρ.id id) (i.renumber ρ)) := by
  have mine : m.Of a id := ⟨i, hi, ha⟩
  have up := B.revise (f := (·.setRunning true)) mine (fun _ => rfl) (fun _ => rfl)
    fun _ => .inl rfl
  unfold Machine.start
  simp only [Instance.renumber_slot, Slot.renumber_current, Option.isNone_map]
  exact .ite B (.ite up (.ite (up.requestTurn (mine.modify fun _ => rfl)) (up.note _ _)))

theorem beginStop :
    InStep a ρ base base' (m.beginStop id i).1 (m'.beginStop (ρ.id id) (i.renumber ρ)).1 ∧
      (m'.beginStop (ρ.id id) (i.renumber ρ)).2 =
        (m.beginStop id i).2.map (·.renumber ρ) := by
  have mine : m.Of a id := ⟨i, hi, ha⟩
  have down : ∀ {n n'}, InStep a ρ base base' n n' → n.Of a id →
      InStep a ρ base base' (n.modify id (·.setRunning false))
        (n'.modify (ρ.id id) (·.setRunning false)) := fun B h =>
    B.revise h (fun _ => rfl) (fun _ => rfl) fun _ => .inl rfl
  unfold Machine.beginStop
  simp only [Instance.renumber_slot, Slot.renumber_current]
  change InStep a ρ base base' (if (!i.slot.running) = true then _ else _ : Machine × Option Turn).1
    (if (!i.slot.running) = true then _ else _ : Machine × Option Turn).1 ∧
    (if (!i.slot.running) = true then _ else _ : Machine × Option Turn).2 = _
  split
  · exact ⟨B, rfl⟩
  · cases hc : i.slot.current with
    | none => exact ⟨down B mine, rfl⟩
    | some turn =>
      have booked := B.twins.booked hi ha hc
      have cancelled := B.cancel booked
      have still : (m.cancel turn.job).Of a id := by
        unfold Machine.cancel
        simp only
        split <;> exact mine
      simp only [Option.map_some, Turn.renumber, B.twins.canCancel booked]
      split
      · exact ⟨cancelled.revise (f := fun i => i.release.setRunning false) still (fun _ => rfl)
          (fun _ => rfl) fun _ => .inr rfl, rfl⟩
      · exact ⟨down cancelled still, rfl⟩

omit hi ha in
theorem forceAbort {turn : Turn} (h : m.JobOf a turn.job) :
    InStep a ρ base base' (m.forceAbort i turn)
      (m'.forceAbort (i.renumber ρ) (turn.renumber ρ)) := by
  unfold Machine.forceAbort
  exact .ite ((B.note _ _).note _ _) (((B.note _ _).abort h).note _ _)

theorem endStop (turn : Turn) : InStep a ρ base base' (m.endStop id i turn)
    (m'.endStop (ρ.id id) (i.renumber ρ) (turn.renumber ρ)) := by
  have mine : m.Of a id := ⟨i, hi, ha⟩
  have clear := B.revise (f := fun i => i.release.clearSnapshot) mine (fun _ => rfl)
    (fun _ => rfl) fun _ => .inr rfl
  unfold Machine.endStop
  simp only [Instance.owns_renumber]
  exact .ite (.ite (clear.requestTurn (mine.modify fun _ => rfl)) clear) B

theorem post (e : Event) :
    InStep a ρ base base' (m.post id i e).1 (m'.post (ρ.id id) (i.renumber ρ) e).1 ∧
      (m'.post (ρ.id id) (i.renumber ρ) e).2 = (m.post id i e).2 := by
  have mine : m.Of a id := ⟨i, hi, ha⟩
  have queued := B.revise (f := (·.setQueue (i.slot.queue.push e).1)) mine (fun _ => rfl)
    (fun _ => rfl) fun _ => .inl rfl
  unfold Machine.post
  simp only [Instance.renumber_slot, Slot.renumber_current, Option.isNone_map]
  change InStep a ρ base base' (if (!i.slot.running) = true then _ else _ : Machine × Posting).1
    (if (!i.slot.running) = true then _ else _ : Machine × Posting).1 ∧
    (if (!i.slot.running) = true then _ else _ : Machine × Posting).2 =
      (if (!i.slot.running) = true then _ else _ : Machine × Posting).2
  split
  · exact ⟨B.note _ _, rfl⟩
  · refine ⟨InStep.note ?_ _ _, rfl⟩
    exact .ite (queued.requestTurn (mine.modify fun _ => rfl)) queued

theorem finishTurn (ticket : Nat) : InStep a ρ base base' (m.finishTurn id i ticket)
    (m'.finishTurn (ρ.id id) (i.renumber ρ) ticket) := by
  have mine : m.Of a id := ⟨i, hi, ha⟩
  have clear := B.revise (f := Instance.clearSnapshot) mine (fun _ => rfl) (fun _ => rfl)
    fun _ => .inl rfl
  have still : (m.modify id Instance.clearSnapshot).Of a id := mine.modify fun _ => rfl
  unfold Machine.finishTurn
  simp only [Instance.owns_renumber]
  exact .ite (.ite (clear.requestTurn still) (clear.revise still (fun _ => rfl) (fun _ => rfl)
    fun _ => .inr rfl)) (B.note _ _)

/-! ## What the script itself and others see -/

theorem edit (e : Edit) :
    InStep a ρ base base' (m.edit id i e) (m'.edit (ρ.id id) (i.renumber ρ) e) := by
  have change : ∀ {n n'}, InStep a ρ base base' n n' → n.Of a id →
      InStep a ρ base base' (n.modify id (·.edit e)) (n'.modify (ρ.id id) (·.edit e)) := fun B h =>
    B.revise h (fun i => congrArg Identity.item (edit_identity i e))
      (fun i => i.edit_renumber e) fun i => .inl (congrArg Slot.current (edit_slot i e))
  unfold Machine.edit
  change InStep a ρ base base' ((if i.keepsEdits = true then _ else _ : Machine).modify _ _)
    ((if i.keepsEdits = true then _ else _ : Machine).modify _ _)
  split
  · exact change (B.note _ _) ⟨i, hi, ha⟩
  · exact change B ⟨i, hi, ha⟩

theorem publishMask :
    InStep a ρ base base' (m.publishMask id i) (m'.publishMask (ρ.id id) (i.renumber ρ)) := by
  have change : ∀ {n n'}, InStep a ρ base base' n n' → n.Of a id →
      InStep a ρ base base' (n.modify id Instance.publish) (n'.modify (ρ.id id) Instance.publish) :=
    fun B h => B.revise h (fun _ => rfl) (fun _ => rfl) fun _ => .inl rfl
  unfold Machine.publishMask
  change InStep a ρ base base' ((if i.held = true then _ else _ : Machine).modify _ _)
    ((if i.held = true then _ else _ : Machine).modify _ _)
  split
  · exact change (B.note _ _) ⟨i, hi, ha⟩
  · exact change (B.note _ _) ⟨i, hi, ha⟩

omit hi ha in
theorem settle (h : m.Of a id) : InStep a ρ base base' (m.settle id) (m'.settle (ρ.id id)) := by
  have change : ∀ {n n'}, InStep a ρ base base' n n' → n.Of a id →
      InStep a ρ base base' (n.modify id Instance.settle) (n'.modify (ρ.id id) Instance.settle) :=
    fun B h => B.revise h (fun _ => rfl) (fun _ => rfl) fun _ => .inl rfl
  obtain ⟨i, hi, ha⟩ := h
  unfold Machine.settle
  simp only [hi, B.twins.get? hi ha]
  change InStep a ρ base base' ((if i.maskStale = true then _ else _ : Machine).modify _ _)
    ((if i.maskStale = true then _ else _ : Machine).modify _ _)
  split
  · exact change (B.note _ _) ⟨i, hi, ha⟩
  · exact change B ⟨i, hi, ha⟩

end Sections

end InStep

end Machine

end ScriptHost
