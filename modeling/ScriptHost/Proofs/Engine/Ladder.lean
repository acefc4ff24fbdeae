import ScriptHost.Proofs.Engine.Resume

/-!
# Where a load arrives

A load that finds a document goes down a ladder: the document is too large, or
cannot be decoded, or is restored. Which of these it was is noted once, and
whatever the load does afterwards notes nothing of the kind (`Instr.Quiet`). The
load then comes to its end, and what it has made is known (`Reads.oversized`,
`Reads.malformed`, `Reads.restored`).
-/

namespace ScriptHost

/-- The path that a note says a load took. -/
def Note.recovery? : Note → Option String
  | .count (.recovery path) => some path
  | _ => none

namespace Machine

/-- The paths that loads have taken, the latest first. -/
def recoveries (m : Machine) : List String := m.trace.filterMap Note.recovery?

variable {m : Machine}

theorem recoveries_note {n : Note} (h : n.recovery? = none) :
    (m.note n).recoveries = m.recoveries := by
  simp [recoveries, note, h]

@[simp] theorem recoveries_log (l : Level) (s : String) :
    (m.log l s).recoveries = m.recoveries := recoveries_note rfl

@[simp] theorem recoveries_modify (id : Nat) (f : Instance → Instance) :
    (m.modify id f).recoveries = m.recoveries := rfl

theorem recoveries_count {c : Metric} (h : (Note.count c).recovery? = none) :
    (m.count c).recoveries = m.recoveries := recoveries_note h

theorem recoveries_recovery (path : String) :
    (m.count (.recovery path)).recoveries = path :: m.recoveries := rfl

theorem recoveries_requestTurn (id : Nat) : (m.requestTurn id).recoveries = m.recoveries := by
  unfold requestTurn
  split
  · rfl
  · rw [recoveries_count rfl, recoveries_note rfl]
    rfl

theorem recoveries_start (id : Nat) (i : Instance) :
    (m.start id i).recoveries = m.recoveries := by
  unfold start
  simp only
  split
  · rfl
  split
  · rfl
  split
  · rw [recoveries_requestTurn, recoveries_modify]
  · rw [recoveries_log, recoveries_modify]

theorem recoveries_post (id : Nat) (i : Instance) (e : Event) :
    (m.post id i e).1.recoveries = m.recoveries := by
  unfold post
  split
  · exact recoveries_count rfl
  simp only
  rw [recoveries_count rfl]
  split
  · rw [recoveries_requestTurn, recoveries_modify]
  · rfl

theorem recoveries_edit (id : Nat) (i : Instance) (e : Edit) :
    (m.edit id i e).recoveries = m.recoveries := by
  rw [edit, recoveries_modify]
  split
  · exact recoveries_log _ _
  · rfl

theorem recoveries_publishMask (id : Nat) (i : Instance) :
    (m.publishMask id i).recoveries = m.recoveries := by
  rw [publishMask, recoveries_modify]
  split
  · exact recoveries_log _ _
  · exact recoveries_note rfl

end Machine

/-- The sections with which a load sets an instance up. -/
def Instr.settling : Instr → Bool
  | .start _ | .post _ _ | .replaceState _ _ | .edit _ _ | .importData _ _ | .refill _ _
  | .log _ _ | .publishMask _ | .letGo _ _ | .register _ | .loaded _ _ _ => true
  | _ => false

theorem Instr.settling_next {m : Machine} {a b : Instr} {r : Reply} (h : a.settling = true)
    (hb : b ∈ (a.exec m r).next) : b.settling = true := by
  cases m.leadsTo r a b hb with
  | edited | published => rfl
  | _ => cases h

/-- A section after which there is only more to be set up, and which notes no path. -/
structure Instr.Quiet (a : Instr) : Prop where
  next : ∀ m r, ∀ b ∈ (a.exec m r).next, b.settling = true
  recoveries : ∀ m r, (a.exec m r).machine.recoveries = m.recoveries

theorem Instr.quiet_of_settling {a : Instr} (h : a.settling = true) : a.Quiet := by
  have about : ∀ {id : Nat} {f : Machine → Instance → Machine},
      (∀ m i, (f m i).recoveries = m.recoveries) →
      ∀ m r, (Instr.about m r id (f m)).machine.recoveries = m.recoveries := by
    intro id f hf m r
    unfold Instr.about
    split
    · exact hf m _
    · rfl
  have leads : ∀ {id : Nat} {f : Machine → Instance → Machine × List Instr},
      (∀ m i, (f m i).1.recoveries = m.recoveries) →
      ∀ m r, (Instr.leads m r id (f m)).machine.recoveries = m.recoveries := by
    intro id f hf m r
    unfold Instr.leads
    split
    · exact hf m _
    · rfl
  refine ⟨fun m r b hb => settling_next h hb, ?_⟩
  cases a with
  | start id => exact about fun m i => m.recoveries_start id i
  | post id e =>
    intro m r
    simp only [exec]
    split
    · exact m.recoveries_post id _ e
    · rfl
  | edit id e => exact leads fun m i => m.recoveries_edit id i e
  | publishMask id => exact leads fun m i => m.recoveries_publishMask id i
  | importData id data => exact about fun m i => m.recoveries_note rfl
  | register id => exact about fun m i => (Machine.recoveries_log _ _).trans rfl
  | log l s => exact fun _ _ => Machine.recoveries_log l s
  | letGo | replaceState | refill | loaded => exact fun _ _ => rfl
  | _ => cases h

/-- A thread that only sets an instance up notes no path. -/
theorem Thread.recoveries_run {n : Nat} {m : Machine} {t : Thread}
    (h : ∀ a ∈ t.agenda, a.settling = true) : (t.run n m).1.recoveries = m.recoveries := by
  induction n generalizing m t with
  | zero => rfl
  | succ n ih =>
    cases hs : t.step? m with
    | none => rw [run_of_none hs]
    | some p =>
      obtain ⟨m', t'⟩ := p
      obtain ⟨a, rest, ha, -, rfl, rfl⟩ := step?_eq_some hs
      have quiet := Instr.quiet_of_settling (h a (ha ▸ List.mem_cons_self))
      rw [run_of_some hs, ih, quiet.recoveries]
      intro b hb
      rcases List.mem_append.mp hb with hb | hb
      · exact quiet.next m t.reply b hb
      · exact h b (ha ▸ List.mem_cons_of_mem _ hb)

/-! ## What is set up -/

namespace Instr

theorem settling_freshStart (id : Nat) (q : LoadRequest) :
    ∀ a ∈ freshStart id q, a.settling = true :=
  forall_freshStart (P := (·.settling = true)) rfl (fun _ => rfl) q

theorem settling_restore (id : Nat) (q : LoadRequest) (d : Document) :
    ∀ a ∈ restore id q d, a.settling = true :=
  forall_restore (P := (·.settling = true)) rfl (fun _ => rfl) (fun _ => rfl) (fun _ => rfl) (fun _ => rfl) (fun _ => rfl)
    (fun _ _ => rfl) q d

theorem settling_finishLoad (id : Nat) (l : Loading) :
    ∀ a ∈ finishLoad id l, a.settling = true :=
  forall_finishLoad (P := (·.settling = true)) rfl rfl (fun _ _ => rfl) l

end Instr

theorem Instr.freshStart_eq (id : Nat) (q : LoadRequest) :
    freshStart id q = [.start id] ++
      (.stateEntry :: if q.postOnRez then [.onRez q.startParam] else []).map (.post id) := by
  unfold freshStart
  split <;> rfl

/-- What is posted to an instance once it has been restored. -/
def LoadRequest.greetings (q : LoadRequest) (d : Document) : List Event :=
  (if d.running then if q.postOnRez then [.onRez q.startParam] else [] else []) ++
    (if q.source = .newRez then [.regionRestart] else [])

/-- To restore a document is to restore it as after a crossing, and to post the greetings. -/
theorem Instr.restore_eq (id : Nat) (q : LoadRequest) (d : Document) :
    restore id q d = restore id { q with postOnRez := false, source := .primCrossing } d ++
      (q.greetings d).map (.post id) := by
  unfold restore LoadRequest.greetings
  cases d.running <;> cases q.postOnRez <;> by_cases hs : q.source = .newRez <;> simp [hs]

namespace Figure

variable {f : Figure}

theorem leads_posts (l : List Event) :
    ∃ s, f.Leads true (fun id => l.map (.post id)) s (l.foldl post f) := by
  induction l generalizing f with
  | nil => exact ⟨[], .nil⟩
  | cons e l ih =>
    obtain ⟨s, h⟩ := ih (f := f.post e)
    exact ⟨_, (leads_post e).append h⟩

theorem leads_freshStart (q : LoadRequest) :
    ∃ s g, f.Leads true (fun id => Instr.freshStart id q) s g := by
  obtain ⟨s, posts⟩ := leads_posts (f := { f with running := true })
    (.stateEntry :: if q.postOnRez then [.onRez q.startParam] else [])
  have all := (leads_start (f := f)).append posts
  simp only [← Instr.freshStart_eq] at all
  exact ⟨_, _, all⟩

theorem leads_restore_any (stopped : f.running = false) (q : LoadRequest) (d : Document) :
    ∃ s, f.Leads true (fun id => Instr.restore id q d) s
      ((q.greetings d).foldl post (f.restored d)) := by
  have plain := leads_restore stopped (q := { q with postOnRez := false, source := .primCrossing })
    nofun rfl d
  obtain ⟨s, greeted⟩ := leads_posts (f := f.restored d) (q.greetings d)
  have all := plain.append greeted
  simp only [← Instr.restore_eq] at all
  exact ⟨_, all⟩

/-- Events are queued if the instance runs. -/
theorem posts_eq (l : List Event) :
    l.foldl post f = if f.running then { f with queue := f.queue.pushAll l } else f := by
  induction l generalizing f with
  | nil => split <;> rfl
  | cons e l ih =>
    rw [List.foldl_cons, ih]
    by_cases hr : f.running = true <;> simp [post, hr, Queue.pushAll]

end Figure

theorem Queue.pushAll_append (q : Queue) (l l' : List Event) :
    q.pushAll (l ++ l') = (q.pushAll l).pushAll l' := List.foldl_append

/-! ## Loads -/

namespace Machine

/-- A load, carried out alone, comes to its end; it took the path, and `i` is what it made. -/
def Loads (m : Machine) (l : Loading) (path : String) (i : Instance) : Prop :=
  ∃ n M r, Thread.run n m ⟨[.load l], .nothing⟩ = (M, ⟨[], r⟩) ∧
    M.recoveries = path :: m.recoveries ∧ M.get? m.instances.length = some i

/-- A load takes one path only, and makes one instance. -/
theorem Loads.unique {m : Machine} {l : Loading} {path path' : String} {i i' : Instance}
    (h : m.Loads l path i) (h' : m.Loads l path' i') : path = path' ∧ i = i' := by
  obtain ⟨n, M, r, hn, hp, hi⟩ := h
  obtain ⟨n', M', r', hn', hp', hi'⟩ := h'
  have went : Thread.Goes 0 m ⟨[.load l], .nothing⟩ _ M _ := ⟨n, hn, rfl⟩
  obtain rfl : M = M' := (went.unique ⟨n', hn', rfl⟩).2
  exact ⟨(List.cons.inj (hp.symm.trans hp')).1, Option.some.inj (hi.symm.trans hi')⟩

/-- A load finds these bytes stored for its item; nothing fails on the way, and nobody calls
back. -/
structure Reads (m : Machine) (l : Loading) (data : Bytes) : Prop where
  unhooked : m.hooks = ([], [], [])
  known : ∃ e, m.entity? l.request.identity.localId = some e
  sized : m.has .failSize = false
  read : m.has .failRead = false
  stored : m.store.Has l.request.identity.item data

/-- The machine on which a load goes down the ladder. -/
def made (m : Machine) (i : Instance) : Machine := { m with instances := m.instances ++ [i] }

namespace Reads

variable {m : Machine} {l : Loading} {data : Bytes}

/-- A load makes an instance and looks for the size of the document. -/
theorem makes (R : m.Reads l data) : ∃ i, (m.made i).Free m.instances.length i ∧
    i.item = l.request.identity.item ∧ i.limits = l.limits ∧
    i.figure = ⟨l.program, Instance.defaultState, false, l.program.initial,
      .empty l.limits.queueCapacity, none, false⟩ ∧
    Thread.run 1 m ⟨[.load l], .nothing⟩ =
      (m.made i, ⟨[.recoverSize m.instances.length l], .nothing⟩) := by
  obtain ⟨e, known⟩ := R.known
  let i := Instance.create l.request l.program l.limits
    (m.capabilities.instantiate l.request.identity e)
  have here : (m.made i).get? m.instances.length = some i := by simp [made, get?]
  refine ⟨i, ⟨⟨here, R.unhooked, .of_rest rfl rfl⟩, rfl, rfl⟩, rfl, rfl, rfl, ?_⟩
  have moves : Thread.step? m ⟨[.load l], .nothing⟩ =
      some (m.made i, ⟨[.recoverSize m.instances.length l], .nothing⟩) := by
    simp only [Thread.step?, Instr.blocked, Bool.false_eq_true, if_false, Instr.exec, load, known]
    rfl
  exact Thread.run_of_some moves 0

/-- Once the path is noted, the load sets the instance up and comes to its end. -/
theorem ends {n : Nat} {N : Machine} {i : Instance} {path : String} {r : Reply} {s : List Sight}
    {g : Figure} (next : Nat → List Instr)
    (run : Thread.run n m ⟨[.load l], .nothing⟩ =
      (N, ⟨next m.instances.length ++ Instr.finishLoad m.instances.length l, r⟩))
    (noted : N.recoveries = path :: m.recoveries) (F : N.Free m.instances.length i)
    (settling : ∀ a ∈ next m.instances.length, a.settling = true)
    (leads : i.figure.Leads true next s g) : ∃ j, m.Loads l path j ∧ j.figure = g := by
  obtain ⟨M, j, r', ⟨k, go, -⟩, F', e, -⟩ :=
    (leads.append (Figure.leads_finishLoad l)) N _ i F rfl [] r
  rw [List.append_nil] at go
  refine ⟨j, ⟨n + k, M, r', ?_, ?_, F'.here⟩, e⟩
  · rw [Thread.run_add, run]
    exact go
  · rw [← noted, show M = (Thread.run k N _).1 from (congrArg Prod.fst go).symm]
    refine Thread.recoveries_run fun a ha => ?_
    rcases List.mem_append.mp ha with ha | ha
    · exact settling a ha
    · exact Instr.settling_finishLoad _ _ a ha

/-- A free instance stays free when something is noted. -/
theorem free_note {i : Instance} {id : Nat} (F : m.Free id i) (n : Note) : (m.note n).Free id i :=
  ⟨⟨F.here, F.unhooked, F.orderly.congr rfl⟩, F.unheld, F.settled⟩

/-- A load that starts afresh. -/
theorem fresh {n : Nat} {i : Instance} {path : String} (F : (m.made i).Free m.instances.length i)
    (run : Thread.run n m ⟨[.load l], .nothing⟩ =
      (((m.made i).startFresh m.instances.length l path).1,
        ⟨((m.made i).startFresh m.instances.length l path).2, .nothing⟩)) :
    ∃ j, m.Loads l path j := by
  have noted : ((m.made i).startFresh m.instances.length l path).1.recoveries =
      path :: m.recoveries := by
    simp only [startFresh]
    split
    · rw [recoveries_log, recoveries_recovery]; rfl
    · rw [recoveries_log, recoveries_recovery]; rfl
    · rw [recoveries_recovery]; rfl
  have free : ((m.made i).startFresh m.instances.length l path).1.Free m.instances.length i := by
    simp only [startFresh]
    split
    · exact free_note (free_note F _) _
    · exact free_note (free_note F _) _
    · exact free_note F _
  obtain ⟨s, g, leads⟩ := Figure.leads_freshStart (f := i.figure) l.request
  obtain ⟨j, loads, -⟩ := ends (fun id => Instr.freshStart id l.request) run noted free
    (Instr.settling_freshStart _ _) leads
  exact ⟨j, loads⟩

/-- A document that is not below the limit is not read. -/
theorem oversized (R : m.Reads l data) (large : l.limits.maxStateBytes ≤ data.length) :
    ∃ j, m.Loads l "oversized" j := by
  obtain ⟨i, F, item, limits, -, run⟩ := R.makes
  refine fresh (n := 1 + 1) F ?_
  have size : (m.made i).size i.item = .ok (some data.length) := by
    have has : (m.made i).store.size i.item = .ok (some data.length) := item ▸ R.stored.size
    have sized : (m.made i).has .failSize = false := R.sized
    simp only [Machine.size, sized, has, Bool.false_eq_true, if_false]
  rw [Thread.run_add, run]
  simp only [Thread.run, Thread.step?, Instr.blocked, Bool.false_eq_true, if_false, Instr.exec,
    Instr.leads, F.here, recoverSize, size, limits, if_pos large, List.append_nil]

/-- A document below the limit is read. -/
theorem reads (R : m.Reads l data) (below : data.length < l.limits.maxStateBytes) :
    ∃ i, (m.made i).Free m.instances.length i ∧
      i.figure = ⟨l.program, Instance.defaultState, false, l.program.initial,
        .empty l.limits.queueCapacity, none, false⟩ ∧
      Thread.run 3 m ⟨[.load l], .nothing⟩ =
        match Document.decode data with
        | .error _ => (((m.made i).startFresh m.instances.length l "malformed").1,
            ⟨((m.made i).startFresh m.instances.length l "malformed").2, .nothing⟩)
        | .ok d => ((m.made i).count (.recovery "restored"),
            ⟨Instr.restore m.instances.length l.request d ++
              Instr.finishLoad m.instances.length l, .nothing⟩) := by
  obtain ⟨i, F, item, limits, figure, run⟩ := R.makes
  refine ⟨i, F, figure, ?_⟩
  have size : (m.made i).size i.item = .ok (some data.length) := by
    have has : (m.made i).store.size i.item = .ok (some data.length) := item ▸ R.stored.size
    have sized : (m.made i).has .failSize = false := R.sized
    simp only [Machine.size, sized, has, Bool.false_eq_true, if_false]
  have raw : (m.made i).read i.item = .ok data := by
    have has : (m.made i).store.read i.item = .ok data := item ▸ R.stored.read
    have read : (m.made i).has .failRead = false := R.read
    simp only [Machine.read, read, has, Bool.false_eq_true, if_false]
  rw [show (3 : Nat) = 1 + 2 from rfl, Thread.run_add, run]
  simp only [Thread.run, Thread.step?, Instr.blocked, Bool.false_eq_true, if_false, Instr.exec,
    Instr.leads, F.here, recoverSize, size, limits, if_neg (Nat.not_le.mpr below), recoverRead, raw,
    List.append_nil]
  cases Document.decode data <;> rfl

theorem malformed (R : m.Reads l data) (below : data.length < l.limits.maxStateBytes)
    {e : Failure} (he : Document.decode data = .error e) : ∃ j, m.Loads l "malformed" j := by
  obtain ⟨i, F, -, run⟩ := R.reads below
  rw [he] at run
  exact fresh F run

/-- A document that is restored. What is posted afterwards counts if the instance runs. -/
theorem restored (R : m.Reads l data) (below : data.length < l.limits.maxStateBytes)
    {d : Document} (hd : Document.decode data = .ok d) :
    ∃ j, m.Loads l "restored" j ∧ j.state = d.state ∧ j.slot.running = d.running ∧
      j.vars = l.program.retain d.vars ∧
      j.slot.queue = (Queue.empty l.limits.queueCapacity).pushAll
        (d.queue ++ if d.running then l.request.greetings d else []) := by
  obtain ⟨i, F, figure, run⟩ := R.reads below
  rw [hd] at run
  obtain ⟨s, leads⟩ := Figure.leads_restore_any (f := i.figure) (figure ▸ rfl) l.request d
  have noted : ((m.made i).count (.recovery "restored")).recoveries = "restored" :: m.recoveries :=
    recoveries_recovery _
  obtain ⟨j, loads, e⟩ := ends (fun id => Instr.restore id l.request d) run noted (free_note F _)
    (Instr.settling_restore _ _ _) leads
  rw [Figure.posts_eq, figure] at e
  refine ⟨j, loads, ?_⟩
  have fields : j.figure.state = d.state ∧ j.figure.running = d.running ∧
      j.figure.vars = l.program.retain d.vars ∧
      j.figure.queue = (Queue.empty l.limits.queueCapacity).pushAll
        (d.queue ++ if d.running then l.request.greetings d else []) := by
    rw [e]
    cases hr : d.running <;> simp [Figure.restored, hr, Queue.pushAll_append]
  exact fields

end Reads

end Machine

end ScriptHost
