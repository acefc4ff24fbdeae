import ScriptHost.Proofs.Engine.Delivery

/-!
# One act after the other

What an observer of one instance has of a host on which nothing happens at the
same time: operations on the instance and turns of it are acts, each carried
out to its end before the next. Seen in the course of an act are the outcomes of
posts and the calls of handlers; after it, what the instance shows. The account
of a list of acts is determined by them (`Performs.unique`).
-/

namespace ScriptHost

/-! ## A thread that goes on alone -/

/-- What is seen of an instance while a section is done. -/
inductive Sight where
  | posted (p : Posting)
  | called (state : String) (event : Event) (detected : List Detection)

def Section.sights (id : Nat) (s : Section) : List Sight :=
  match s.instr with
  | .post k e => s.on id k fun i => [.posted (s.machine.post id i e).2]
  | .enter v =>
    if v.id = id then s.calls.map fun state => .called state v.event v.detected else []
  | _ => []

theorem Section.sights_enter {m : Machine} {id : Nat} (v : Invocation) :
    Section.sights id ⟨m, .enter v⟩ =
      Section.on ⟨m, .enter v⟩ id v.id fun i => [.called i.state v.event v.detected] := by
  by_cases hv : v.id = id
  · subst hv
    cases hi : m.get? v.id <;> simp [sights, calls_enter, on, hi]
  · simp [sights, hv]

/-- Sections in which nothing is seen of any instance. -/
def Instr.unseen : Instr → Bool
  | .post _ _ | .enter _ => false
  | _ => true

theorem Section.sights_unseen {m : Machine} {a : Instr} {id : Nat} (h : a.unseen = true) :
    Section.sights id ⟨m, a⟩ = [] := by
  cases a <;> first | rfl | cases h

namespace Thread

section Stuck

variable {m m' : Machine} {t t' : Thread}

theorem run_of_none (h : t.step? m = none) (n : Nat) : t.run n m = (m, t) := by
  cases n with
  | zero => rfl
  | succ n => rw [run, h]

theorem sections_of_none (h : t.step? m = none) (n : Nat) : t.sections n m = [] := by
  cases n with
  | zero => rfl
  | succ n => unfold sections; rw [h]; cases t.agenda.head? <;> rfl

theorem run_of_some (h : t.step? m = some (m', t')) (n : Nat) :
    t.run (n + 1) m = t'.run n m' := by
  rw [run, h]

theorem sections_of_some {a : Instr} (ha : t.agenda.head? = some a)
    (h : t.step? m = some (m', t')) (n : Nat) :
    t.sections (n + 1) m = ⟨m, a⟩ :: t'.sections n m' := by
  rw [sections, h, ha]

end Stuck

theorem run_add (n k : Nat) (m : Machine) (t : Thread) :
    t.run (n + k) m = (t.run n m).2.run k (t.run n m).1 := by
  induction n generalizing m t with
  | zero => rw [Nat.zero_add]; rfl
  | succ n ih =>
    rw [Nat.add_right_comm]
    cases hs : t.step? m with
    | none => rw [run_of_none hs, run_of_none hs, run_of_none hs]
    | some p => rw [run_of_some hs, run_of_some hs, ih]

theorem sections_add (n k : Nat) (m : Machine) (t : Thread) :
    t.sections (n + k) m = t.sections n m ++ (t.run n m).2.sections k (t.run n m).1 := by
  induction n generalizing m t with
  | zero => rw [Nat.zero_add]; rfl
  | succ n ih =>
    rw [Nat.add_right_comm]
    cases hs : t.step? m with
    | none =>
      rw [run_of_none hs, sections_of_none hs, sections_of_none hs, sections_of_none hs]
      rfl
    | some p =>
      obtain ⟨m', t'⟩ := p
      obtain ⟨a, rest, ha, -⟩ := step?_eq_some hs
      have head : t.agenda.head? = some a := by rw [ha]; rfl
      rw [run_of_some hs, sections_of_some head hs, sections_of_some head hs, ih]
      rfl

/-- A thread that goes on alone comes from `t` to `t'`; `l` is what is seen of the instance. -/
def Goes (id : Nat) (m : Machine) (t : Thread) (l : List Sight) (m' : Machine) (t' : Thread) :
    Prop :=
  ∃ n, t.run n m = (m', t') ∧ (t.sections n m).flatMap (Section.sights id) = l

namespace Goes

variable {id : Nat} {m m' m'' : Machine} {t t' t'' : Thread} {l l' : List Sight} {a : Instr}
  {rest : List Instr} {r : Reply}

theorem refl (id : Nat) (m : Machine) (t : Thread) : Goes id m t [] m t := ⟨0, rfl, rfl⟩

theorem trans (h : Goes id m t l m' t') (h' : Goes id m' t' l' m'' t'') :
    Goes id m t (l ++ l') m'' t'' := by
  obtain ⟨n, hn, rfl⟩ := h
  obtain ⟨k, hk, rfl⟩ := h'
  refine ⟨n + k, ?_, ?_⟩
  · rw [run_add, hn]; exact hk
  · rw [sections_add, hn, List.flatMap_append]

/-- The first section of the agenda. -/
theorem one (h : a.blocked m = false) : Goes id m ⟨a :: rest, r⟩ (Section.sights id ⟨m, a⟩)
    (a.exec m r).machine ⟨(a.exec m r).next ++ rest, (a.exec m r).reply⟩ := by
  refine ⟨1, ?_, ?_⟩
  · simp [run, step?, h]
  · simp [sections, step?, h]

theorem step (h : a.blocked m = false) (hu : a.unseen = true)
    (h' : Goes id (a.exec m r).machine ⟨(a.exec m r).next ++ rest, (a.exec m r).reply⟩ l m' t') :
    Goes id m ⟨a :: rest, r⟩ l m' t' := by
  have first : Goes id m ⟨a :: rest, r⟩ (Section.sights id ⟨m, a⟩) _ _ := one h
  have := first.trans h'
  rwa [Section.sights_unseen hu] at this

/-- A thread that goes on alone comes to one end only. -/
theorem unique {r r' : Reply} (h : Goes id m t l m' ⟨[], r⟩) (h' : Goes id m t l' m'' ⟨[], r'⟩) :
    l = l' ∧ m' = m'' := by
  obtain ⟨n, hn, rfl⟩ := h
  obtain ⟨k, hk, rfl⟩ := h'
  have both : ∀ {n k m' r m'' r'}, t.run n m = (m', ⟨[], r⟩) → t.run k m = (m'', ⟨[], r'⟩) →
      n ≤ k → t.sections n m = t.sections k m ∧ m' = m'' := by
    intro n k m' r m'' r' hn hk hle
    obtain ⟨d, rfl⟩ := Nat.exists_eq_add_of_le hle
    rw [run_add, hn, run_of_none (t := ⟨[], r⟩) rfl] at hk
    rw [sections_add, hn, sections_of_none (t := ⟨[], r⟩) rfl, List.append_nil]
    exact ⟨rfl, congrArg Prod.fst hk⟩
  rcases Nat.le_total n k with hle | hle
  · exact (both hn hk hle).imp_left fun e => by rw [e]
  · exact ⟨by rw [(both hk hn hle).1], (both hk hn hle).2.symm⟩

end Goes

end Thread

/-! ## Acts -/

/-- What is done to an instance: an operation on it is called, or its outstanding turn is run, if
there is one. -/
inductive Act where
  | call (o : Op)
  | turn

/-- The machine on which an act begins, and the thread that carries it out. -/
def Machine.begin? (m : Machine) (id : Nat) : Act → Option (Machine × Thread)
  | .call o => (m.get? id).map fun i =>
    ((m.onInstance id i o).1, ⟨(m.onInstance id i o).2.1, (m.onInstance id i o).2.2⟩)
  | .turn => (m.get? id).map fun i =>
    match i.slot.current with
    | some turn => (m.setPhase turn.job .running, .ofJob id turn.ticket turn.job)
    | none => (m, ⟨[], .nothing⟩)

/-- What an instance shows: the named state, whether it runs, its variables and its queue. -/
structure Look where
  state : String
  running : Bool
  vars : Vars
  queue : List Event

def Instance.look (i : Instance) : Look := ⟨i.state, i.slot.running, i.vars, i.slot.queue.events⟩

/-- What an observer has of an act: what was seen in its course, and what the instance shows
afterwards. -/
structure Account where
  sights : List Sight
  look : Look

/-- An act is carried out from its beginning to its end, and nothing else happens. -/
def Machine.Carries (id : Nat) (m : Machine) (act : Act) (l : List Sight) (m' : Machine) : Prop :=
  ∃ n t r, m.begin? id act = some (n, t) ∧ Thread.Goes id n t l m' ⟨[], r⟩

theorem Machine.Carries.unique {id : Nat} {m m' m'' : Machine} {act : Act} {l l' : List Sight}
    (h : m.Carries id act l m') (h' : m.Carries id act l' m'') : l = l' ∧ m' = m'' := by
  obtain ⟨n, t, r, hb, hg⟩ := h
  obtain ⟨n', t', r', hb', hg'⟩ := h'
  obtain ⟨rfl, rfl⟩ : n = n' ∧ t = t' := by simpa using hb.symm.trans hb'
  exact hg.unique hg'

/-- The acts are carried out one after the other, with an account of each. -/
inductive Machine.Performs (id : Nat) : Machine → List Act → List Account → Machine → Prop where
  | nil (m : Machine) : Performs id m [] [] m
  | cons {m n m' : Machine} {act : Act} {acts : List Act} {l : List Sight} {i : Instance}
      {accounts : List Account} : m.Carries id act l n → n.get? id = some i →
      Performs id n acts accounts m' →
      Performs id m (act :: acts) (⟨l, i.look⟩ :: accounts) m'

/-- There is one account of what is done. -/
theorem Machine.Performs.unique {id : Nat} {m m' m'' : Machine} {acts : List Act}
    {accounts accounts' : List Account} (h : m.Performs id acts accounts m')
    (h' : m.Performs id acts accounts' m'') : accounts = accounts' := by
  induction h generalizing accounts' m'' with
  | nil => cases h'; rfl
  | cons hc hi _ ih =>
    cases h' with
    | cons hc' hi' hp' =>
      obtain ⟨rfl, rfl⟩ := hc.unique hc'
      obtain rfl := Option.some.inj (hi.symm.trans hi')
      rw [ih hp']

end ScriptHost
