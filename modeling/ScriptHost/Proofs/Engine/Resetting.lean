import ScriptHost.Proofs.Engine.Stopping

/-!
# Resets

Once a reset has stopped its instance, it wipes what there is of it, starts it
again and posts `state_entry`; other threads may move between any two of its
sections, and a handler of a turn that the stop has given up may still have the
script. What it leaves is an instance as good as new, if nobody else deals with
the instance in the meantime and no handler of it is entered (`reset_leaves`):
what a handler wrote before it let the script go is lost, and so is what it has
asked for.
-/

namespace ScriptHost

namespace Section

/-- The section starts, stops, posts to, edits or resets the instance, in part, or enters a handler
of it, or gives up its outstanding turn, or writes its document. -/
def deals (id : Nat) (s : Section) : Bool :=
  match s.instr with
  | .start k | .stop k _ | .post k _ | .clearQueue k | .refill k _ | .edit k _
  | .replaceState k _ | .clearPermissions k | .removePlugins k | .removeState k
  | .publishMask k => k == id
  | .enter v => v.id == id
  | .stopEnd k turn => k == id && (s.machine.get? id).any (·.owns turn.ticket)
  | _ => (s.machine.get? id).any fun i => s.writes? == some i.item

theorem deals_of_directs {id : Nat} {s : Section} (h : s.instr.directs id = true) :
    s.deals id = true := by
  obtain ⟨m, a⟩ := s
  cases a <;> first | exact h | cases h

theorem deals_of_writes {id : Nat} {s : Section} {i : Instance} (hi : s.machine.get? id = some i)
    (h : s.writes? = some i.item) : s.deals id = true := by
  obtain ⟨m, a⟩ := s
  have hi : m.get? id = some i := hi
  have found : (m.get? id).any (fun i => Section.writes? ⟨m, a⟩ == some i.item) = true := by
    rw [hi, h]
    exact beq_self_eq_true _
  cases a with
  | save | op => exact found
  | _ => cases h

end Section

namespace Slot

variable {s : Slot}

theorem start_cleared (stopped : s.running = false) (empty : s.queue.events = []) :
    s.start = ⟨{ s with running := true }, false⟩ := by
  simp [start, stopped, Queue.isEmpty, empty]

theorem post_first {e : Event} (running : s.running = true) (idle : s.current = none)
    (empty : s.queue.events = []) (room : 0 < s.queue.capacity) (untimed : e.isTimer = false) :
    ∃ q, q.events = [e] ∧ s.post e = ⟨{ s with queue := q }, true⟩ := by
  have fits : s.queue.capacity ≠ 0 := by omega
  refine ⟨⟨s.queue.capacity, [e], s.queue.timerPending⟩, rfl, ?_⟩
  simp [post, running, idle, Queue.push, fits, untimed, empty, Posting.isAccepted]

end Slot

/-- What a run has to do with the instance, of all that is done in it. -/
def dealings (id : Nat) (g : List Section) : List Instr := (g.filter (·.deals id)).map (·.instr)

theorem dealings_append (id : Nat) (g g' : List Section) :
    dealings id (g ++ g') = dealings id g ++ dealings id g' := by
  simp [dealings]

theorem mem_dealings {id : Nat} {g : List Section} {s : Section} {l : List Instr}
    (hd : dealings id g = l) (hs : s ∈ g) (h : s.deals id = true) : s.instr ∈ l :=
  hd ▸ List.mem_map_of_mem (List.mem_filter.mpr ⟨hs, h⟩)

namespace System

section

variable {S T U : System} {h l : List Section} {id : Nat} {i : Instance} {a : Instr}
  {x z : List Instr}

/-- Where in a run something is done about the instance. -/
theorem Run.split_dealing (r : Run S l T) (hd : dealings id l = x ++ a :: z) :
    ∃ g₁ V W rest reply others g₂, l = g₁ ++ ⟨V.machine, a⟩ :: g₂ ∧ Run S g₁ V ∧
      Moves V a rest reply others W ∧ Run S (g₁ ++ [⟨V.machine, a⟩]) W ∧ Run W g₂ T ∧
      dealings id g₁ = x ∧ dealings id g₂ = z := by
  obtain ⟨l₁, l₂, hl, hx, hz⟩ := List.map_eq_append_iff.mp hd
  obtain ⟨s, l₃, rfl, rfl, hz'⟩ := List.map_eq_cons_iff.mp hz
  obtain ⟨k₁, k₂, rfl, hk₁, hk₂⟩ := List.filter_eq_append_iff.mp hl
  obtain ⟨k₃, g₂, rfl, skipped, -, hg₂⟩ := List.filter_eq_cons_iff.mp hk₂
  rw [← List.append_assoc] at r
  obtain ⟨V, W, rest, reply, others, rV, hm, M, rW, rT⟩ := r.split
  obtain ⟨m, b⟩ := s
  obtain rfl : m = V.machine := hm
  refine ⟨k₁ ++ k₃, V, W, rest, reply, others, g₂, by simp, rV, M, rW, rT, ?_, ?_⟩
  · have : k₃.filter (·.deals id) = [] := List.filter_eq_nil_iff.mpr skipped
    rw [dealings, List.filter_append, this, List.append_nil, hk₁, hx]
  · rw [dealings, hg₂, hz']

/-- Every section of a run finds the instance as it was, but for what changes. -/
theorem Run.instance_at {s : Section} (r : Run S l T) (H : Life h S)
    (hi : S.machine.get? id = some i) (hs : s ∈ l) :
    ∃ j, s.machine.get? id = some j ∧ j.identity = i.identity := by
  obtain ⟨g₁, g₂, rfl⟩ := List.append_of_mem hs
  obtain ⟨V, W, rest, reply, others, rV, hm, -⟩ := r.split
  obtain ⟨j, hj, he, -⟩ := rV.lasting_fixed H hi
  exact ⟨j, hm ▸ hj, he⟩

theorem undirected {l : List Section} {z : List Instr} (hd : dealings id l = z)
    (hz : ∀ a ∈ z, a.directs id = false) : ∀ s ∈ l, s.instr.directs id = false := fun _ hs =>
  Bool.eq_false_iff.mpr fun h =>
    Bool.false_ne_true ((hz _ (mem_dealings hd hs (Section.deals_of_directs h))).symm.trans h)

/-! ## The document -/

theorem Run.removes_document (r : Run S l T) (H : Life h S) (hi : S.machine.get? id = some i)
    (hd : dealings id l = Instr.renews id)
    (succeeds : ∀ s ∈ l, s.instr = .removeState id → (s.machine.remove i.item).2 = none) :
    T.machine.store.holds i.item = false := by
  rw [Instr.renews_eq] at hd
  obtain ⟨g₁, V, W, rest, reply, others, g₂, rfl, rV, M, rW, rT, -, hd⟩ :=
    r.split_dealing (x := []) hd
  obtain ⟨j, hj, he, -⟩ := rV.lasting_fixed H hi
  obtain ⟨j', hj', he', -⟩ := rW.lasting_fixed H hi
  have lacks : W.machine.store.Lacks i.item := by
    rw [M.machine]
    have item : j.item = i.item := congrArg Identity.item he
    have := succeeds ⟨V.machine, _⟩ (List.mem_append_right _ List.mem_cons_self) rfl
    rw [← item] at this ⊢
    exact Machine.lacks_removeState reply hj this
  refine (rT.lasting_lack (H.run rW) (fun s hs hw => ?_) lacks).not_holds
  -- Nobody else writes the document, and a reset does not.
  obtain ⟨k, hk, hke⟩ := rT.instance_at (H.run rW) hj' hs
  have item : k.item = i.item := congrArg Identity.item (hke.trans he')
  have := mem_dealings hd hs (Section.deals_of_writes hk (item ▸ hw))
  obtain ⟨m, a⟩ := s
  cases a with
  | save | op => simp at this
  | _ => cases hw

/-! ## Variables -/

theorem Run.resets_vars (r : Run S l T) (H : Life h S) (hi : S.machine.get? id = some i)
    (hd : dealings id l = Instr.renews id) :
    ∃ j, T.machine.get? id = some j ∧ VarsReset id T.pending j := by
  rw [Instr.renews_eq] at hd
  obtain ⟨g₁, V, W, rest, reply, others, g₂, rfl, rV, M, rW, rT, -, hd⟩ :=
    r.split_dealing (x := [_, _, _, _]) hd
  obtain ⟨j, hj, -⟩ := rV.lasting_fixed H hi
  have HV := H.run rV
  have initial := (HV.sound hj).initial
  obtain ⟨s, p, hj'⟩ := M.get?_after hj
  refine rT.lasting_vars (H.run rW) (fun s hs => ⟨fun e he => ?_, fun v he hv => ?_⟩) hj' ?_
  · have := mem_dealings hd hs (by simp [Section.deals, he])
    simp [he] at this
  · have := mem_dealings hd hs (by simp [Section.deals, he, hv])
    simp [he] at this
  · have edited : (Instr.edit id .resetVars).alter id j = j.edit .resetVars := by
      simp [Instr.alter, Instr.change?]
    suffices VarsReset id W.pending (j.edit .resetVars) by rwa [edited]
    cases hk : j.keepsEdits with
    | true =>
      rw [Instance.edit_of_keeps hk]
      exact ⟨initial, .inl rfl⟩
    | false =>
      rw [Instance.edit_of_applies hk]
      refine ⟨rfl, .inr ⟨rfl, rfl, M.not_acting (fun _ he => by cases he) fun v x hb hv => ?_⟩⟩
      exact HV.not_concealed hj (Instance.no_handler_of_applies hk) _ hb (congrArg some hv)

/-! ## The named state and the event mask -/

theorem Run.resets_state (r : Run S l T) (H : Life h S) (hi : S.machine.get? id = some i)
    (hd : dealings id l = Instr.renews id) :
    ∃ j, T.machine.get? id = some j ∧ j.state = Instance.defaultState := by
  rw [Instr.renews_eq] at hd
  obtain ⟨g₁, V, W, rest, reply, others, g₂, rfl, rV, M, rW, rT, -, hd⟩ :=
    r.split_dealing (x := [_, _, _, _, _]) hd
  obtain ⟨j, hj, -⟩ := rV.lasting_fixed H hi
  obtain ⟨s, p, hj'⟩ := M.get?_after hj
  refine rT.lasting_state (H.run rW) (fun s hs state he => ?_) hj' ?_
  · have := mem_dealings hd hs (by simp [Section.deals, he])
    simp [he] at this
  · simp [Instr.alter, Instr.change?]

theorem Run.tells_mask (before : List Section) (r : Run S l T) (H : Life h S)
    (hi : S.machine.get? id = some i) (hd : dealings id l = Instr.renews id) :
    ∃ j, T.machine.get? id = some j ∧ MaskTold id (before ++ l) j := by
  rw [Instr.renews_eq] at hd
  obtain ⟨g₁, V, W, rest, reply, others, g₂, rfl, rV, M, rW, rT, -, hd⟩ :=
    r.split_dealing (x := [_, _, _, _, _, _]) hd
  obtain ⟨j, hj, -⟩ := rV.lasting_fixed H hi
  obtain ⟨s, p, hj'⟩ := M.get?_after hj
  have told := rT.lasting_mask (before ++ (g₁ ++ [⟨V.machine, .publishMask id⟩])) (H.run rW)
    (fun s hs state he => ?_) hj' ?_
  · simpa using told
  · have := mem_dealings hd hs (by simp [Section.deals, he])
    simp [he] at this
  · cases hh : j.held with
    | true => exact .inr (by simp [Instr.alter, Instr.change?, Instance.publish, hh])
    | false =>
      refine .inl ?_
      simp [Section.mask?_publishMask hj, Instr.alter, Instr.change?, Instance.publish, hh]

/-- Once the script is settled after that, nothing is kept back. -/
theorem Run.settles {g g' : List Section} {m : Machine} (r : Run S l T) (H : Life h S)
    (hi : S.machine.get? id = some i) (hd : dealings id l = Instr.renews id)
    (settled : l = g ++ ⟨m, .settle id⟩ :: g') (told : .publishMask id ∉ dealings id g') :
    ∃ j, T.machine.get? id = some j ∧ j.pendingEdit = none ∧ j.maskStale = false := by
  subst settled
  obtain ⟨V, W, rest, reply, others, rV, -, M, rW, rT⟩ := r.split
  obtain ⟨j, hj, -⟩ := rV.lasting_fixed H hi
  obtain ⟨s, p, hj'⟩ := M.get?_after hj
  have unedited : ∀ e, .edit id e ∉ dealings id g' := by
    intro e he
    rw [Instr.renews_eq, List.append_cons, dealings_append] at hd
    have suffix : dealings id g' <:+ _ := ⟨_, hd⟩
    simp only [List.suffix_cons_iff, List.suffix_nil] at suffix
    rcases suffix with h | h | h | h | h | h | h | h | h | h <;> simp [h] at told he
  refine rT.lasting_settled (H.run rW) (fun s hs => ⟨fun e he => ?_, fun he => ?_⟩) hj' ⟨?_, ?_⟩
  · exact unedited e (he ▸ mem_dealings rfl hs (by simp [Section.deals, he]))
  · exact told (he ▸ mem_dealings rfl hs (by simp [Section.deals, he]))
  · simp [Instr.alter, Instr.change?, Instance.settle]
  · simp [Instr.alter, Instr.change?, Instance.settle]

/-! ## The queue and the turn -/

section

variable {rest : List Instr} {reply : Reply} {others : List Thread}

theorem Moves.revised {v : Revision} (M : Moves S a rest reply others T)
    (hi : S.machine.get? id = some i)
    (hc : (a.exec S.machine reply).machine.core = S.machine.core.revise id v) :
    ∃ j, T.machine.get? id = some j ∧
      j.slot = if v.asks then v.slot.ask (S.machine.core.jobs.length + 1) else v.slot := by
  refine Machine.exists_get? ?_
  rw [M.machine, hc, Core.slots_revise (Machine.slot_of_get? hi), if_pos rfl]

theorem Moves.cleared (M : Moves S (.clearQueue id) rest reply others T)
    (hi : S.machine.get? id = some i) :
    ∃ j, T.machine.get? id = some j ∧ j.slot = { i.slot with queue := i.slot.queue.clear } :=
  M.revised (v := ⟨{ i.slot with queue := i.slot.queue.clear }, false⟩) hi
    (Machine.core_modify_slot (Machine.slot_of_get? hi) (fun i => i.setQueue i.slot.queue.clear)
      (fun s => { s with queue := s.queue.clear }) (fun _ => rfl) fun _ => rfl)

theorem Moves.started (M : Moves S (.start id) rest reply others T)
    (hi : S.machine.get? id = some i) (stopped : i.slot.running = false)
    (empty : i.slot.queue.events = []) :
    ∃ j, T.machine.get? id = some j ∧ j.slot = { i.slot with running := true } := by
  have := M.revised (v := i.slot.start) hi (by
    simp only [Instr.exec, Instr.about, hi, Instr.plain]
    exact Machine.core_start hi)
  rwa [Slot.start_cleared stopped empty] at this

theorem Moves.posted {e : Event} (M : Moves S (.post id e) rest reply others T)
    (hi : S.machine.get? id = some i) (running : i.slot.running = true)
    (idle : i.slot.current = none) (empty : i.slot.queue.events = [])
    (room : 0 < i.slot.queue.capacity) (untimed : e.isTimer = false) :
    ∃ j n, T.machine.get? id = some j ∧ j.slot.running = true ∧ j.slot.queue.events = [e] ∧
      j.slot.current = some ⟨i.slot.lastTicket + 1, n⟩ := by
  obtain ⟨q, hq, hp⟩ := Slot.post_first running idle empty room untimed
  obtain ⟨j, hj, hs⟩ := M.revised (v := i.slot.post e) hi (by
    simp only [Instr.exec, hi, Instr.plain]
    exact Machine.core_post hi e)
  rw [hp, if_pos rfl] at hs
  exact ⟨j, _, hj, by rw [hs]; exact running, by rw [hs]; exact hq, by rw [hs]; rfl⟩

end

/-- The first section about the slot of an instance without a turn finds the slot as it was. -/
theorem Run.directed (r : Run S l T) (H : Life h S) (hi : S.machine.get? id = some i)
    (idle : i.slot.current = none) (hd : dealings id l = x ++ a :: z)
    (hx : ∀ b ∈ x, b.directs id = false) :
    ∃ h₁ V j h₂ W rest reply others l', Life h₁ V ∧ V.machine.get? id = some j ∧
      j.slot = i.slot ∧ Moves V a rest reply others W ∧ Life h₂ W ∧ Run W l' T ∧
      dealings id l' = z := by
  obtain ⟨g, V, W, rest, reply, others, l', rfl, rV, M, rW, rT, hg, hd⟩ := r.split_dealing hd
  obtain ⟨j, hj, hs⟩ := rV.lasting_slot H (undirected hg hx) hi idle
  exact ⟨_, V, j, _, W, rest, reply, others, l', H.run rV, hj, hs, M, H.run rW, rT, hd⟩

/-- A ticket that no turn has had yet is no turn's to finish. -/
theorem Coherent.unfinished (C : S.Coherent) {ticket : Nat} (hi : S.machine.get? id = some i)
    (fresh : i.slot.lastTicket < ticket) : .finishTurn id ticket ∉ S.pending := by
  intro hb
  obtain ⟨n, ⟨j, hj, rfl, rfl⟩, -⟩ := C.turn_atWork hb rfl
  obtain ⟨s, hs, hle⟩ := C.booked.owners n j hj
  obtain rfl := Option.some.inj (hs.symm.trans (Machine.slot_of_get? hi))
  omega

/-- The queue of a stopped instance is emptied, and nothing but `state_entry` comes to be queued,
for a turn that nobody has ever had. -/
theorem Run.posts_entry (r : Run S l T) (H : Life h S) (hi : S.machine.get? id = some i)
    (stopped : i.slot.running = false) (idle : i.slot.current = none)
    (room : 0 < i.limits.queueCapacity) (hd : dealings id l = Instr.renews id) :
    ∃ j, T.machine.get? id = some j ∧ Awaits id .stateEntry T.pending j := by
  rw [Instr.renews_eq] at hd
  obtain ⟨_, _, i₁, _, _, _, _, _, _, -, hi₁, e₁, M₁, H₁, r, hd⟩ :=
    r.directed (x := [_, _, _]) H hi idle hd (by simp [Instr.directs])
  obtain ⟨j₁, hj₁, c₁⟩ := M₁.cleared hi₁
  obtain ⟨_, _, i₂, _, _, _, _, _, _, -, hi₂, e₂, M₂, H₂, r, hd⟩ :=
    r.directed (x := [_, _, _]) H₁ hj₁ (by rw [c₁, e₁]; exact idle) hd (by simp [Instr.directs])
  obtain ⟨j₂, hj₂, c₂⟩ :=
    M₂.started hi₂ (by rw [e₂, c₁, e₁]; exact stopped) (by rw [e₂, c₁]; rfl)
  obtain ⟨_, V, i₃, _, _, _, _, _, _, HV, hi₃, e₃, M₃, H₃, r, hd⟩ :=
    r.directed (x := []) H₂ hj₂ (by rw [c₂, e₂, c₁, e₁]; exact idle) hd (by simp)
  have before : i₃.slot = { i.slot with queue := i.slot.queue.clear, running := true } := by
    rw [e₃, c₂, e₂, c₁, e₁]
  have capacity : i₃.slot.queue.capacity = i.slot.queue.capacity := by rw [before]; rfl
  obtain ⟨j₃, n, hj₃, running, queued, current⟩ := M₃.posted hi₃ (by rw [before])
    (by rw [before]; exact idle) (by rw [before]; rfl)
    (by rw [capacity, (H.sound hi).capacity]; exact room) rfl
  refine r.lasting_event H₃ (fun s hs => ⟨undirected hd (by simp) s hs, fun v he hv => ?_,
    fun turn i he hi => ?_⟩) rfl hj₃ ⟨running, _, current, .inl ⟨queued, fun hb => ?_⟩⟩
  · exact List.not_mem_nil (mem_dealings hd hs (by simp [Section.deals, he, hv]))
  · refine Bool.eq_false_iff.mpr fun ho => List.not_mem_nil (mem_dealings hd hs ?_)
    simp [Section.deals, he, hi, ho]
  · rcases M₃.mem_after.mp hb with hb | hb
    · simp [Instr.exec, hi₃, Instr.plain] at hb
    · exact HV.coherent.unfinished hi₃ (Nat.lt_succ_self _) (M₃.mem_before.mpr (.inr hb))

/-! ## The reset as a whole -/

/-- An instance as good as new, `told` being what has been done so far. What a handler of old has
written and still writes, and the mask that was told while it had the script, are overridden once
it lets the script go or the next handler is about to get it. -/
structure Renewed (id : Nat) (told : List Section) (T : System) (i : Instance) : Prop where
  here : T.machine.get? id = some i
  state : i.state = Instance.defaultState
  vars : VarsReset id T.pending i
  mask : MaskTold id told i
  entry : Awaits id .stateEntry T.pending i
  removed : T.machine.store.holds i.item = false
  /-- Who is at the outstanding turn has not entered its handler. -/
  unentered : Unentered id T.pending i
  /-- What handlers of old have asked for is not done. -/
  dropped : ∀ v o reply, .applyRequests v o ∈ T.pending → v.id = id →
    ((Instr.applyRequests v o).exec T.machine reply).next = [.conclude v o]

theorem Unentered.dropped {v : Invocation} {o : Outcome} (N : Unentered id T.pending i)
    (hi : T.machine.get? id = some i) (reply : Reply) (hb : .applyRequests v o ∈ T.pending)
    (hv : v.id = id) : ((Instr.applyRequests v o).exec T.machine reply).next = [.conclude v o] := by
  have lost : i.owns v.ticket = false := Bool.eq_false_iff.mpr fun ho => by
    cases N _ hb v rfl hv ho
  simp [Instr.exec, Instr.leads, hv, hi, lost]

/-- A reset that has found its instance running leaves it as good as new, whoever has had the script
meanwhile, if nobody else starts or stops it until the stop has returned and no wait lies, and from
then on nobody else deals with it and no handler of it is entered. Once the script has been settled
after the reset had its mask told, nothing is kept back any more. -/
theorem reset_leaves {h h₁ h₂ : List Section} {S U T : System} {k : Nat} {m : Machine}
    {rest : List Instr} {r₀ r₁ : Reply} (H : Life h S)
    (resetting : S.threads[k]? = some ⟨Instr.resetAll id true ++ rest, r₀⟩)
    (stops : Run S h₁ U) (stopped : U.threads[k]? = some ⟨Instr.renews id ++ rest, r₁⟩)
    (once : h₁.filter (Section.switches id) = [⟨m, .stop id 0⟩]) (running : m.core.Runs id)
    (honest : ∀ s ∈ h₁, s.honest = true) (renews : Run U h₂ T)
    (alone : dealings id h₂ = Instr.renews id) (hi : S.machine.get? id = some i)
    (room : 0 < i.limits.queueCapacity)
    (removes : ∀ s ∈ h₂, s.instr = .removeState id → (s.machine.remove i.item).2 = none) :
    ∃ j, T.Renewed id (h ++ h₁ ++ h₂) j ∧ j.identity = i.identity ∧ j.program = i.program ∧
      ∀ g n g', h₂ = g ++ ⟨n, .settle id⟩ :: g' → .publishMask id ∉ dealings id g' →
        j.pendingEdit = none ∧ j.maskStale = false := by
  obtain ⟨u, hu, halted, idle⟩ := stops.reset_stops H resetting stopped honest once running
  obtain ⟨u', hu', identity, limits, program⟩ := stops.lasting_fixed H hi
  obtain rfl := Option.some.inj (hu.symm.trans hu')
  have HU := H.run stops
  have item : u.item = i.item := congrArg Identity.item identity
  obtain ⟨j, hj, identity', -, program'⟩ := renews.lasting_fixed HU hu
  have here : ∀ {P : Instance → Prop}, (∃ j, T.machine.get? id = some j ∧ P j) → P j := by
    rintro P ⟨j', hj', hP⟩
    exact Option.some.inj (hj.symm.trans hj') ▸ hP
  have unentered : Unentered id T.pending j := by
    refine here (renews.lasting_unentered HU (fun s hs v he hv => ?_) hu fun b hb v hv hid ho => ?_)
    · have := mem_dealings alone hs (by simp [Section.deals, he, hv])
      simp [Instr.renews_eq, he] at this
    · rw [Instance.owns, Slot.owns, idle] at ho
      cases ho
  refine ⟨j, ⟨hj, here (renews.resets_state HU hu alone), here (renews.resets_vars HU hu alone),
    here (renews.tells_mask (h ++ h₁) HU hu alone),
    here (renews.posts_entry HU hu halted idle (limits ▸ room) alone), ?_, unentered,
    fun v o reply => unentered.dropped hj reply⟩, identity'.trans identity,
    program'.trans program, fun g n g' settled told => ?_⟩
  · rw [show j.item = u.item from congrArg Identity.item identity']
    exact renews.removes_document HU hu alone (item ▸ removes)
  · exact here (renews.settles HU hu alone settled told)

end

/-- A host in which a handler that has written a variable and asked for another state is stuck. -/
def busy : List Section × System := System.play 40 ⟨.bare true, []⟩
  [.call (.loadNew "a" 1 (.answering [("state_entry",
      [.set "n" (.integer 1), .request (.setState "x"), .park false, .set "n" (.integer 2)])])),
    .call (.run 1)]

/-- A reset has found the instance running. -/
def interrupted : List Section × System := System.play 2 busy.2 [.call (.reset "a")]

/-- The stop of the reset has given up the turn of the handler. -/
def halted : List Section × System := System.play 6 interrupted.2 [.go 2]

/-- The reset has returned; then the handler has gone on, written again, and ended. -/
def renewed : List Section × System :=
  System.play 9 halted.2 [.go 2, .call .release, .go 1]

theorem reset_leaves_interrupted : ∃ i j, interrupted.2.machine.get? 0 = some i ∧
    i.held = true ∧ i.live.bindings = [("n", .integer 1)] ∧
    renewed.2.Renewed 0 (busy.1 ++ interrupted.1 ++ halted.1 ++ renewed.1) j ∧
    j.live = j.program.initial ∧ j.maskStale = false := by
  have H : Life (busy.1 ++ interrupted.1) interrupted.2 :=
    (Life.play true 40 _).run (Run.play 2 _ _)
  obtain ⟨i, r₀, r₁, m, n, hi, held, wrote, hk, hU, once, running, honest, room, removes, hn⟩ :
      ∃ i r₀ r₁ m n, interrupted.2.machine.get? 0 = some i ∧ i.held = true ∧
        i.live.bindings = [("n", .integer 1)] ∧
        interrupted.2.threads[2]? = some ⟨Instr.resetAll 0 true ++ [.answer .nothing], r₀⟩ ∧
        halted.2.threads[2]? = some ⟨Instr.renews 0 ++ [.answer .nothing], r₁⟩ ∧
        halted.1.filter (Section.switches 0) = [⟨m, .stop 0 0⟩] ∧ m.core.Runs 0 ∧
        halted.1.all (·.honest) = true ∧ 0 < i.limits.queueCapacity ∧
        renewed.1.all (fun s => (s.machine.remove i.item).2.isNone) = true ∧
        ⟨n, .settle 0⟩ = renewed.1.get ⟨13, by decide⟩ :=
    ⟨_, _, _, _, _, rfl, rfl, rfl, rfl, rfl, rfl, ⟨_, rfl, rfl⟩, rfl, by decide, rfl, rfl⟩
  have settled : renewed.1 = renewed.1.take 13 ++ ⟨n, .settle 0⟩ :: renewed.1.drop 14 := by
    rw [hn, List.get_eq_getElem, ← List.drop_eq_getElem_cons, List.take_append_drop]
  have after : dealings 0 (renewed.1.drop 14) = [] := rfl
  obtain ⟨j, R, -, -, done⟩ := reset_leaves H hk (Run.play 6 _ _) hU once running
    (List.all_eq_true.mp honest) (Run.play 9 _ _) rfl hi room
    fun s hs _ => Option.isNone_iff_eq_none.mp (List.all_eq_true.mp removes s hs)
  obtain ⟨kept, told⟩ := done _ n _ settled (by rw [after]; exact List.not_mem_nil)
  refine ⟨i, j, hi, held, wrote, R, ?_, told⟩
  rcases R.vars.2 with h | ⟨-, h, -⟩
  · cases kept.symm.trans h
  · exact h

end System

end ScriptHost
