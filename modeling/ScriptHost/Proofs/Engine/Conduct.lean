import ScriptHost.Proofs.Engine.Ladder

/-!
# Loads from a store that may do anything

A load asks the store twice, for the size of the document and for its bytes,
and between the two the store may have come to hold something else, or to fail.
Once the document has been restored or given up, what sets the instance up
neither asks the store again nor looks at what has been noted
(`Instr.blind_of_settling`). So two loads that give the document up differ in
what they logged and in the path they noted, and in nothing else
(`Machine.recovery_ladder`).
-/

namespace ScriptHost

/-- How a document store behaves: what it holds, and how it misbehaves. -/
structure Conduct where
  store : DocumentStore
  defects : List Defect

namespace Machine

/-- The machine, its store behaving so. -/
def amid (m : Machine) (c : Conduct) : Machine := { m with store := c.store, defects := c.defects }

/-- The machine, its store behaving so and this having been noted. -/
def recast (m : Machine) (c : Conduct) (trace : List Note) : Machine :=
  { m.amid c with trace := trace }

def conduct (m : Machine) : Conduct := ⟨m.store, m.defects⟩

@[simp] theorem amid_amid (m : Machine) (c c' : Conduct) : (m.amid c).amid c' = m.amid c' := rfl

end Machine

/-! ## Sections that are blind to the store -/

/-- A change of machines that adds the same notes whatever has been noted before, and for which it
does not matter how the store behaves. -/
def Blind (f : Machine → Machine) : Prop :=
  ∀ m, ∃ new, ∀ c trace, f (m.recast c trace) = (f m).recast c (new ++ trace)

namespace Blind

variable {f g : Machine → Machine}

theorem of_silent (h : ∀ m c trace, f (m.recast c trace) = (f m).recast c trace) : Blind f :=
  fun m => ⟨[], h m⟩

theorem comp (hg : Blind g) (hf : Blind f) : Blind fun m => g (f m) := by
  intro m
  obtain ⟨new, h⟩ := hf m
  obtain ⟨later, h'⟩ := hg (f m)
  refine ⟨later ++ new, fun c trace => ?_⟩
  simp only [h, h', List.append_assoc]

theorem self : Blind fun m => m := of_silent fun _ _ _ => rfl

theorem note (n : Note) : Blind (·.note n) := fun _ => ⟨[n], fun _ _ => rfl⟩

theorem log (l : Level) (s : String) : Blind (·.log l s) := note _

theorem count (c : Metric) : Blind (·.count c) := note _

theorem modify (id : Nat) (h : Instance → Instance) : Blind (·.modify id h) :=
  of_silent fun _ _ _ => rfl

/-- What is done with an instance, if there is one. -/
theorem found (k : Nat) {f : Machine → Instance → Machine}
    (one : ∀ {m i}, m.get? k = some i → g m = f m i) (nobody : ∀ {m}, m.get? k = none → g m = m)
    (h : ∀ i, Blind fun m => f m i) : Blind g := by
  intro m
  cases hi : m.get? k with
  | none => exact ⟨[], fun c trace => by rw [nobody hi, nobody (m := m.recast c trace) hi]; rfl⟩
  | some i =>
    obtain ⟨new, e⟩ := h i m
    exact ⟨new, fun c trace => by rw [one hi, one (m := m.recast c trace) hi]; exact e c trace⟩

theorem requestTurn (id : Nat) : Blind (·.requestTurn id) :=
  found id (f := fun m i =>
      let job := m.jobs.length + 1
      let m := { m with jobs := m.jobs ++ [(⟨id, i.slot.lastTicket + 1, .queued, false⟩ : Job)] }
      ((m.modify id fun i => i.occupy job).note (.dispatch job)).count .dispatchRequest)
    (fun hi => by simp only [Machine.requestTurn, hi])
    (fun hi => by simp only [Machine.requestTurn, hi])
    fun _ m => ⟨[.count .dispatchRequest, .dispatch (m.jobs.length + 1)], fun _ _ => rfl⟩

theorem start (id : Nat) (i : Instance) : Blind (·.start id i) := by
  unfold Machine.start
  split
  · exact self
  simp only
  split
  · exact modify _ _
  split
  · exact (requestTurn id).comp (modify _ _)
  · exact (log _ _).comp (modify _ _)

theorem post (id : Nat) (i : Instance) (e : Event) : Blind fun m => (m.post id i e).1 := by
  unfold Machine.post
  split
  · exact count _
  simp only
  refine (count _).comp ?_
  split
  · exact (requestTurn id).comp (modify _ _)
  · exact modify _ _

theorem edit (id : Nat) (i : Instance) (e : Edit) : Blind (·.edit id i e) := by
  refine (modify _ _).comp (f := fun m =>
    if i.keepsEdits then m.log .debug "script busy, variable change deferred" else m) ?_
  split
  · exact log _ _
  · exact self

theorem publishMask (id : Nat) (i : Instance) : Blind (·.publishMask id i) := by
  refine (modify _ _).comp (f := fun m =>
    if i.held then m.log .debug "script busy, event mask update deferred" else m.sendMask i) ?_
  split
  · exact log _ _
  · exact note _

theorem about {id : Nat} {r : Reply} {f : Machine → Instance → Machine}
    (h : ∀ i, Blind fun m => f m i) : Blind fun m => (Instr.about m r id (f m)).machine :=
  found id (fun hi => by simp only [Instr.about, hi, Instr.plain])
    (fun hi => by simp only [Instr.about, hi, Instr.plain]) h

theorem leads {id : Nat} {r : Reply} {f : Machine → Instance → Machine × List Instr}
    (h : ∀ i, Blind fun m => (f m i).1) : Blind fun m => (Instr.leads m r id (f m)).machine :=
  found id (f := fun m i => (f m i).1) (fun hi => by simp only [Instr.leads, hi])
    (fun hi => by simp only [Instr.leads, hi, Instr.plain]) h

end Blind

/-- What sets an instance up is blind to the store, and to what has been noted. -/
theorem Instr.blind_of_settling {a : Instr} (h : a.settling = true) (r : Reply) :
    Blind fun m => (a.exec m r).machine := by
  cases a with
  | start id => exact .about (.start id)
  | post id e =>
    exact .found id (fun hi => by simp only [exec, hi, plain])
      (fun hi => by simp only [exec, hi, plain]) fun i => .post id i e
  | edit id e => exact .leads fun i => .edit id i e
  | publishMask id => exact .leads (.publishMask id)
  | importData id data => exact .about fun i => .note _
  | register id =>
    exact .about fun i => (Blind.log _ _).comp (.of_silent fun _ _ _ => rfl)
  | log l s => exact .log l s
  | replaceState | letGo | refill => exact .modify _ _
  | loaded id name place => exact .of_silent fun _ _ _ => rfl
  | _ => cases h

/-- Of what sets an instance up, only edits and masks lead to another section, the end of their
errand. -/
theorem Instr.next_of_settling {a : Instr} (h : a.settling = true) (m : Machine) (r : Reply) :
    (a.exec m r).next = [] ∨ ∃ id e, (a.exec m r).next = [.letGo id e] := by
  cases a with
  | start | importData | register => exact .inl next_about
  | post id e =>
    simp only [exec]
    split <;> exact .inl rfl
  | edit id e => exact (next_edit m r id e).imp_right fun hn => ⟨_, _, hn⟩
  | publishMask id => exact (next_publishMask m r id).imp_right fun hn => ⟨_, _, hn⟩
  | log | replaceState | letGo | refill | loaded => exact .inl rfl
  | _ => cases h

/-- What it leads to depends neither on the store nor on what has been noted. -/
theorem Instr.next_recast {a : Instr} (h : a.settling = true) (m : Machine) (r : Reply)
    (c : Conduct) (trace : List Note) :
    (a.exec (m.recast c trace) r).next = (a.exec m .nothing).next := by
  have same : ∀ id, (m.recast c trace).get? id = m.get? id := fun _ => rfl
  cases a with
  | start | importData | register => exact next_about.trans next_about.symm
  | post id e =>
    simp only [exec, same]
    split <;> rfl
  | edit | publishMask =>
    simp only [exec, leads, same]
    split <;> rfl
  | log | replaceState | letGo | refill | loaded => rfl
  | _ => cases h

/-- The machine after a section and those that it leads to. -/
def Machine.through (m : Machine) (a : Instr) : Machine :=
  (a.exec m .nothing).next.foldl (fun m b => (b.exec m .nothing).machine) (a.exec m .nothing).machine

/-- The machine after these sections and those that they lead to. -/
def Machine.after (m : Machine) (l : List Instr) : Machine := l.foldl through m

theorem Machine.after_append (m : Machine) (l l' : List Instr) :
    m.after (l ++ l') = (m.after l).after l' := List.foldl_append

theorem Machine.through_of_next {m : Machine} {a : Instr} (h : (a.exec m .nothing).next = []) :
    m.through a = (a.exec m .nothing).machine := by
  rw [through, h]
  rfl

theorem Machine.through_letGo {m : Machine} {a : Instr} {id : Nat} {e : Errand}
    (h : (a.exec m .nothing).next = [.letGo id e]) :
    m.through a = (a.exec m .nothing).machine.modify id (·.letGo e) := by
  rw [through, h]
  rfl

namespace Blind

theorem through {a : Instr} (h : a.settling = true) : Blind (·.through a) := by
  intro m
  obtain ⟨new, same⟩ := Instr.blind_of_settling h .nothing m
  refine ⟨new, fun c trace => ?_⟩
  have next := Instr.next_recast h m .nothing c trace
  rcases Instr.next_of_settling h m .nothing with hn | ⟨id, e, hn⟩
  · simp only [Machine.through_of_next (next.trans hn), Machine.through_of_next hn, same]
  · simp only [Machine.through_letGo (next.trans hn), Machine.through_letGo hn, same]
    rfl

theorem after {l : List Instr} (h : ∀ a ∈ l, a.settling = true) : Blind (·.after l) := by
  induction l with
  | nil => exact self
  | cons a l ih =>
    exact (ih fun b hb => h b (List.mem_cons_of_mem _ hb)).comp (through (h a List.mem_cons_self))

/-- What is noted is added to what has been noted. -/
theorem trace {f : Machine → Machine} (hf : Blind f) (m : Machine) :
    ∃ new, (f m).trace = new ++ m.trace ∧
      ∀ c trace, f (m.recast c trace) = (f m).recast c (new ++ trace) := by
  obtain ⟨new, h⟩ := hf m
  exact ⟨new, congrArg Machine.trace (h m.conduct m.trace), h⟩

theorem amid {f : Machine → Machine} (hf : Blind f) (m : Machine) (c : Conduct) :
    f (m.amid c) = (f m).amid c := by
  obtain ⟨new, e, h⟩ := hf.trace m
  rw [show m.amid c = m.recast c m.trace from rfl, h, ← e]
  rfl

end Blind

/-! ## Threads whose store may do anything -/

/-- A thread that nothing but the store interferes with comes to its end; `course` is what it has
done. Before its section number `k`, the store has come to behave as `c k`. -/
inductive Thread.Ends (c : Nat → Conduct) :
    Nat → Machine → Thread → List Instr → Machine → Reply → Prop where
  | done {k : Nat} {m : Machine} {r : Reply} : Ends c k m ⟨[], r⟩ [] m r
  | step {k : Nat} {m m' M : Machine} {t t' : Thread} {a : Instr} {course : List Instr}
      {r : Reply} : t.agenda.head? = some a → t.step? (m.amid (c k)) = some (m', t') →
      Ends c (k + 1) m' t' course M r → Ends c k m t (a :: course) M r

namespace Thread.Ends

variable {c : Nat → Conduct} {k : Nat} {m M M' : Machine} {t : Thread} {a : Instr}
  {rest course course' : List Instr} {r r' : Reply}

/-- A thread comes to one end only. -/
theorem unique (h : Ends c k m t course M r) (h' : Ends c k m t course' M' r') :
    course = course' ∧ M = M' ∧ r = r' := by
  induction h generalizing course' M' r' with
  | done =>
    cases h' with
    | done => exact ⟨rfl, rfl, rfl⟩
    | step ha => cases ha
  | step ha hs _ ih =>
    cases h' with
    | done => cases ha
    | step ha' hs' h' =>
      obtain ⟨rfl, rfl⟩ := Prod.mk.inj (Option.some.inj (hs.symm.trans hs'))
      obtain ⟨rfl, rfl, rfl⟩ := ih h'
      exact ⟨by rw [Option.some.inj (ha.symm.trans ha')], rfl, rfl⟩

/-- The first section of an agenda, if it waits for nobody. -/
theorem exec {d : Done} (hb : a.blocked (m.amid (c k)) = false) (e : a.exec (m.amid (c k)) r = d)
    (h : Ends c (k + 1) d.machine ⟨d.next ++ rest, d.reply⟩ course M r') :
    Ends c k m ⟨a :: rest, r⟩ (a :: course) M r' := by
  refine .step rfl ?_ h
  simp only [step?, hb, Bool.false_eq_true, if_false, e]

end Thread.Ends

theorem Instr.blocked_of_settling {a : Instr} (h : a.settling = true) (m : Machine) :
    a.blocked m = false := by
  cases a <;> first | rfl | cases h

theorem Instr.machine_of_settling {a : Instr} (h : a.settling = true) (m : Machine) (r : Reply) :
    (a.exec m r).machine = (a.exec m .nothing).machine := by
  cases a with
  | start id | post id e | importData id data | register id =>
    simp only [exec, about]
    split <;> rfl
  | edit id e | publishMask id =>
    simp only [exec, leads]
    split <;> rfl
  | log | replaceState | letGo | refill | loaded => rfl
  | _ => cases h

/-- A section that sets an instance up, and the end of its errand, are carried out whatever the store
does meanwhile. -/
theorem Thread.Ends.through {c : Nat → Conduct} {k : Nat} {m : Machine} {a : Instr} {r : Reply}
    (h : a.settling = true) : ∃ k' c' r', ∀ {rest course M r''},
      Ends c k' ((m.through a).amid c') ⟨rest, r'⟩ course M r'' →
        ∃ course', Ends c k m ⟨a :: rest, r⟩ course' M r'' := by
  have machine : (a.exec (m.amid (c k)) r).machine =
      (a.exec m .nothing).machine.amid (c k) := by
    rw [(Instr.blind_of_settling h r).amid, Instr.machine_of_settling h]
  have next : (a.exec (m.amid (c k)) r).next = (a.exec m .nothing).next :=
    Instr.next_recast h m r (c k) m.trace
  rcases Instr.next_of_settling h m .nothing with hn | ⟨id, e, hn⟩
  · refine ⟨k + 1, c k, (a.exec (m.amid (c k)) r).reply, fun {_ course _ _} go => ⟨a :: course, ?_⟩⟩
    rw [Machine.through_of_next hn, ← machine] at go
    refine .exec (Instr.blocked_of_settling h _) rfl ?_
    rw [next, hn, List.nil_append]
    exact go
  · refine ⟨k + 2, c (k + 1), (a.exec (m.amid (c k)) r).reply,
      fun {_ course _ _} go => ⟨a :: .letGo id e :: course, ?_⟩⟩
    rw [Machine.through_letGo hn] at go
    refine .exec (Instr.blocked_of_settling h _) rfl ?_
    rw [next, hn, machine]
    exact .exec rfl rfl go

/-- What sets an instance up comes to its end, whatever the store does meanwhile. -/
theorem Thread.Ends.settles {c : Nat → Conduct} {k : Nat} {m : Machine} {l : List Instr}
    {id : Nat} {name : String} {r : Reply} (h : ∀ a ∈ l, a.settling = true) :
    ∃ course c', Ends c k m ⟨l ++ [.loaded id name place], r⟩ course
      ((m.after (l ++ [.loaded id name place])).amid c') .loaded := by
  induction l generalizing k m r with
  | nil => exact ⟨_, c k, .exec rfl rfl .done⟩
  | cons a l ih =>
    obtain ⟨k', c₁, r', through⟩ := Thread.Ends.through (c := c) (k := k) (m := m) (r := r)
      (h a List.mem_cons_self)
    obtain ⟨course, c', go⟩ := ih (k := k') (m := (m.through a).amid c₁) (r := r')
      fun b hb => h b (List.mem_cons_of_mem _ hb)
    have all : ∀ b ∈ l ++ [.loaded id name place], b.settling = true := fun b hb => by
      rcases List.mem_append.mp hb with hb | hb
      · exact h b (List.mem_cons_of_mem _ hb)
      · rw [List.mem_singleton.mp hb]; rfl
    rw [(Blind.after all).amid] at go
    obtain ⟨course', goes⟩ := through go
    exact ⟨course', c', goes⟩

/-- So does the rest of a load. -/
theorem Thread.Ends.finishes {c : Nat → Conduct} {k : Nat} {m : Machine} {next : List Instr}
    {id : Nat} {r : Reply} (h : ∀ a ∈ next, a.settling = true) (l : Loading) :
    ∃ course c', Ends c k m ⟨next ++ Instr.finishLoad id l, r⟩ course
      ((m.after (next ++ Instr.finishLoad id l)).amid c') .loaded := by
  have e : next ++ Instr.finishLoad id l =
      (next ++ (.publishMask id :: if l.registers then [.register id] else [])) ++
        [.loaded id l.name l.place] := (List.append_assoc _ _ _).symm
  rw [e]
  refine settles fun a ha => ?_
  rcases List.mem_append.mp ha with ha | ha
  · exact h a ha
  · exact Instr.settling_finishLoad id l a (List.mem_append_left _ ha)

/-! ## The sections of a load -/

/-- The instance that a load makes. -/
def Machine.newcomer (m : Machine) (l : Loading) (e : Entity) : Instance :=
  .create l.request l.program l.limits (m.capabilities.instantiate l.request.identity e)

/-- What a load finds that asks for the size of the document, and then for its bytes: they decode
to `d`, and the size was given, below the limit. -/
def Machine.Finds (m : Machine) (c : Nat → Conduct) (l : Loading) (d : Document) : Prop :=
  ∃ size raw, (m.amid (c 1)).size l.request.identity.item = .ok (some size) ∧
    size < l.limits.maxStateBytes ∧ (m.amid (c 2)).read l.request.identity.item = .ok raw ∧
    Document.decode raw = .ok d

theorem Machine.get?_made (m : Machine) (i : Instance) (c : Conduct) :
    ((m.made i).amid c).get? m.instances.length = some i := by
  simp [made, amid, get?]

/-- What a load notes, once it has given the document up. -/
theorem Machine.startFresh_eq (m : Machine) (id : Nat) (l : Loading) (path : String) :
    ∃ lines, (∀ n ∈ lines, ∃ level message, n = .log level message) ∧
      m.startFresh id l path =
        (m.recast m.conduct (lines ++ .count (.recovery path) :: m.trace),
          Instr.freshStart id l.request ++ Instr.finishLoad id l) := by
  unfold startFresh
  simp only
  split
  · exact ⟨[.log .error "unable to load script state: memory limit exceeded"], by simp, rfl⟩
  · exact ⟨[.log .error "unable to load script state"], by simp, rfl⟩
  · exact ⟨[], by simp, rfl⟩

/-- An entity is looked for first. -/
theorem Thread.Ends.of_unknown {c : Nat → Conduct} {m : Machine} {l : Loading}
    (unknown : m.entity? l.request.identity.localId = none) (r : Reply) :
    Ends c 0 m ⟨[.load l], r⟩ [.load l]
      ((m.log .error "entity unavailable, script not started").amid (c 0))
      (.failed (.entityNotFound l.request.identity.localId)) := by
  have there : (m.amid (c 0)).entity? l.request.identity.localId = none := unknown
  refine .exec (d := ⟨(m.log .error "entity unavailable, script not started").amid (c 0), [],
    .failed (.entityNotFound l.request.identity.localId)⟩) rfl ?_ .done
  simp only [Instr.exec, Machine.load, there, Option.getD_some]
  rfl

/-- A load comes to have these sections left, on this machine. -/
def Thread.Comes (c : Nat → Conduct) (m : Machine) (l : Loading) (r : Reply) (k : Nat)
    (s : Machine) (left : List Instr) : Prop :=
  ∃ before, ∀ course M r', Ends c k s ⟨left, r⟩ course M r' →
    Ends c 0 m ⟨[.load l], r⟩ (before ++ course) M r'

/-- A load comes to start afresh; it has noted a path that is not the one of a document that is
restored, and logged something. -/
def Thread.GivesUp (c : Nat → Conduct) (m : Machine) (l : Loading) (e : Entity) (r : Reply) :
    Prop :=
  ∃ k lines path c', path ≠ "restored" ∧ (∀ n ∈ lines, ∃ level message, n = .log level message) ∧
    Comes c m l r k
      ((m.made (m.newcomer l e)).recast c' (lines ++ .count (.recovery path) :: m.trace))
      (Instr.freshStart m.instances.length l.request ++ Instr.finishLoad m.instances.length l)

namespace Thread.Comes

variable {c : Nat → Conduct} {m s : Machine} {l : Loading} {e : Entity} {r : Reply} {k : Nat}
  {a : Instr}

theorem next {d : Done} (h : Comes c m l r k s [a]) (free : a.blocked (s.amid (c k)) = false)
    (does : a.exec (s.amid (c k)) r = d) (same : d.reply = r) :
    Comes c m l r (k + 1) d.machine d.next := by
  obtain ⟨before, reaches⟩ := h
  refine ⟨before ++ [a], fun course M r' go => ?_⟩
  rw [List.append_assoc]
  refine reaches _ _ _ (.exec free does ?_)
  rw [List.append_nil, same]
  exact go

/-- If there is an entity, an instance is made, and the size of its document asked for. -/
theorem asks_size (known : m.entity? l.request.identity.localId = some e) :
    Comes c m l r 1 ((m.made (m.newcomer l e)).amid (c 0))
      [.recoverSize m.instances.length l] := by
  have there : (m.amid (c 0)).entity? l.request.identity.localId = some e := known
  have start : Comes c m l r 0 m [.load l] := ⟨[], fun _ _ _ => id⟩
  refine start.next (d := ⟨(m.made (m.newcomer l e)).amid (c 0),
    [.recoverSize m.instances.length l], r⟩) rfl ?_ rfl
  simp only [Instr.exec, Machine.load, there, Option.getD_none]
  rfl

/-- If the size is below the limit, the bytes are asked for. -/
theorem asks_bytes (known : m.entity? l.request.identity.localId = some e) {size : Nat}
    (sized : (m.amid (c 1)).size l.request.identity.item = .ok (some size))
    (below : size < l.limits.maxStateBytes) :
    Comes c m l r 2 ((m.made (m.newcomer l e)).amid (c 1))
      [.recoverRead m.instances.length l] := by
  have sized : ((m.made (m.newcomer l e)).amid (c 1)).size (m.newcomer l e).item =
    .ok (some size) := sized
  have below : ¬ (m.newcomer l e).limits.maxStateBytes ≤ size := Nat.not_le.mpr below
  refine (asks_size known).next (d := ⟨(m.made (m.newcomer l e)).amid (c 1),
    [.recoverRead m.instances.length l], r⟩) rfl ?_ rfl
  simp only [Machine.amid_amid, Instr.exec, Instr.leads, m.get?_made, Machine.recoverSize, sized,
    if_neg below]

/-- If they decode, the document is restored. -/
theorem restores (known : m.entity? l.request.identity.localId = some e) {d : Document}
    (finds : m.Finds c l d) :
    Comes c m l r 3 (((m.made (m.newcomer l e)).amid (c 2)).count (.recovery "restored"))
      (Instr.restore m.instances.length l.request d ++ Instr.finishLoad m.instances.length l) := by
  obtain ⟨size, raw, sized, below, read, decodes⟩ := finds
  have read : ((m.made (m.newcomer l e)).amid (c 2)).read (m.newcomer l e).item = .ok raw := read
  refine (asks_bytes known sized below).next
    (d := ⟨((m.made (m.newcomer l e)).amid (c 2)).count (.recovery "restored"),
      Instr.restore m.instances.length l.request d ++ Instr.finishLoad m.instances.length l, r⟩)
    rfl ?_ rfl
  simp only [Machine.amid_amid, Instr.exec, Instr.leads, m.get?_made, Machine.recoverRead, read,
    decodes]

/-- Whichever section gives the document up, what is left is the same. -/
theorem gives_up (path : String) (h : Comes c m l r k s [a])
    (same : s.amid (c k) = (m.made (m.newcomer l e)).amid (c k))
    (free : a.blocked (s.amid (c k)) = false) (other : path ≠ "restored")
    (does : a.exec ((m.made (m.newcomer l e)).amid (c k)) r =
      ⟨(((m.made (m.newcomer l e)).amid (c k)).startFresh m.instances.length l path).1,
        (((m.made (m.newcomer l e)).amid (c k)).startFresh m.instances.length l path).2, r⟩) :
    GivesUp c m l e r := by
  obtain ⟨lines, logged, fresh⟩ :=
    ((m.made (m.newcomer l e)).amid (c k)).startFresh_eq m.instances.length l path
  rw [fresh, ← same] at does
  refine ⟨k + 1, lines, path, c k, other, logged, ?_⟩
  have := h.next free does rfl
  rwa [same] at this

/-- A load that finds nothing that it can restore gives up. -/
theorem gives_up_of_unfound (known : m.entity? l.request.identity.localId = some e)
    (nothing : ∀ d, ¬ m.Finds c l d) (r : Reply) : GivesUp c m l e r := by
  -- The size is asked for first.
  cases sized : (m.amid (c 1)).size l.request.identity.item with
  | error x =>
    have sized : ((m.made (m.newcomer l e)).amid (c 1)).size (m.newcomer l e).item = .error x :=
      sized
    refine (asks_size known).gives_up "malformed" rfl rfl (by decide) ?_
    simp only [Instr.exec, Instr.leads, m.get?_made, Machine.recoverSize, sized]
  | ok found =>
    cases found with
    | none =>
      have sized : ((m.made (m.newcomer l e)).amid (c 1)).size (m.newcomer l e).item = .ok none :=
        sized
      refine (asks_size known).gives_up "fresh" rfl rfl (by decide) ?_
      simp only [Instr.exec, Instr.leads, m.get?_made, Machine.recoverSize, sized]
    | some size =>
      by_cases below : size < l.limits.maxStateBytes
      · -- The bytes are asked for next.
        refine (asks_bytes known sized below).gives_up "malformed" rfl rfl (by decide) ?_
        cases read : (m.amid (c 2)).read l.request.identity.item with
        | error x =>
          have read : ((m.made (m.newcomer l e)).amid (c 2)).read (m.newcomer l e).item =
            .error x := read
          simp only [Instr.exec, Instr.leads, m.get?_made, Machine.recoverRead, read]
        | ok raw =>
          have found : ((m.made (m.newcomer l e)).amid (c 2)).read (m.newcomer l e).item =
            .ok raw := read
          cases decodes : Document.decode raw with
          | error x =>
            simp only [Instr.exec, Instr.leads, m.get?_made, Machine.recoverRead, found, decodes]
          | ok d => exact absurd ⟨size, raw, sized, below, read, decodes⟩ (nothing d)
      · have sized : ((m.made (m.newcomer l e)).amid (c 1)).size (m.newcomer l e).item =
          .ok (some size) := sized
        have large : (m.newcomer l e).limits.maxStateBytes ≤ size := Nat.not_lt.mp below
        refine (asks_size known).gives_up "oversized" rfl rfl (by decide) ?_
        simp only [Instr.exec, Instr.leads, m.get?_made, Machine.recoverSize, sized, if_pos large]

end Thread.Comes

end ScriptHost
