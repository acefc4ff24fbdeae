import ScriptHost.Proofs.Engine.Calm
import ScriptHost.Proofs.Engine.Ending
import ScriptHost.Proofs.Engine.Saving

/-!
# A shutdown

A shutdown goes through the registered instances, and stops and saves one after
the other. What it has done with an instance is a `Parting`; how far it has got
is told by `Shutting`, and with one instance by `Parts`. As long as nobody calls
operations meanwhile, an instance that has been stopped stays as it is, so that
what the save finds queued is what the stop left, and what the shutdown leaves.
Whatever the store does, and whenever, makes a difference to the answer only.
-/

namespace ScriptHost

/-! ## One instance -/

/-- The error that an answer reports. -/
def Reply.failure? : Reply → Option Error
  | .failed e => some e
  | _ => none

/-- What is done to close an instance down: it is stopped, running or not before; it is saved, with
these events queued when the save begins; its document is written; the save comes to its end. -/
inductive Closure where
  | stops (id : Nat) (running : Bool)
  | saves (id : Nat) (queued : List Event)
  | writes (id : Nat) (document : Document)
  | ends (id : Nat) (failure : Option Error)

/-- What the section does of it. -/
def Section.closure? (s : Section) : Option Closure :=
  match s.instr with
  | .stop id _ => (s.machine.get? id).map fun i => .stops id i.slot.running
  | .save id (.state _) => (s.machine.get? id).map fun i => .saves id i.slot.queue.events
  | .save id (.write d) => (s.machine.get? id).bind fun i =>
    if s.written = [(i.item, d.encode.length)] then some (.writes id d) else none
  | .save id .verify => some (.ends id (s.instr.exec s.machine .nothing).reply.failure?)
  | _ => none

/-- What a shutdown has done with an instance. -/
structure Parting where
  id : Nat
  running : Bool
  queued : List Event
  document : Document
  failure : Option Error

def Parting.closures (p : Parting) : List Closure :=
  [.stops p.id p.running, .saves p.id p.queued, .writes p.id p.document, .ends p.id p.failure]

/-- The running flag that a save under way has been told. -/
def Saving.told? : Saving → Option Bool
  | .vars told _ | .plugins told _ _ | .queue told _ _ _ => some told
  | _ => none

theorem Section.closure?_of_calm {m : Machine} {a : Instr} (h : a.calm = true) :
    Section.closure? ⟨m, a⟩ = none := by
  cases a <;> first | rfl | cases h

theorem Section.closure?_of_awaiting {m : Machine} {a : Instr} (h : a.awaiting = true) :
    Section.closure? ⟨m, a⟩ = none := by
  cases a <;> first | rfl | cases h

namespace System

variable {S T U V W : System} {h g : List Section} {cs : List Closure} {a : Instr}
  {l rest : List Instr} {r : Reply} {id k : Nat} {i : Instance}

/-- The document says whether the instance ran before its stop, and what is queued since. -/
structure Parted (p : Parting) (V : System) : Prop where
  running : p.document.running = p.running
  queue : p.document.queue = p.queued
  shut : Shut p.id p.queued V

/-- How far a shutdown has got with an instance: what has been done, what is to be done, and what
has been answered last. -/
inductive Parts (V : System) (id : Nat) : List Closure → List Instr → Reply → Prop where
  | begun {i : Instance} {ms : Nat} {r : Reply} : V.machine.get? id = some i →
      Parts V id [] [.stop id ms, .save id (.state i.slot.running)] r
  | stops {running : Bool} {l : List Instr} {r : Reply} : Waiting id l V →
      (∀ b ∈ l, b.awaiting = true) →
      Parts V id [.stops id running] (l ++ [.save id (.state running)]) r
  | saves {running : Bool} {q : List Event} {s : Saving} {r : Reply} : Shut id q V →
      s.told? = some running →
      Parts V id [.stops id running, .saves id q] [.save id s] r
  | writes {d : Document} {r : Reply} : Shut id d.queue V →
      Parts V id [.stops id d.running, .saves id d.queue] [.save id (.write d)] r
  | verifies {d : Document} {r : Reply} : Shut id d.queue V →
      Parts V id [.stops id d.running, .saves id d.queue, .writes id d] [.save id .verify] r
  | past {p : Parting} {r : Reply} : p.id = id → p.failure = r.failure? → Parted p V →
      Parts V id p.closures [] r

theorem Parted.step {p : Parting} (P : Parted p V) (C : V.Coherent) (s : V.Step g W)
    (gentle : ∀ s ∈ g, s.instr.gentle = true) : Parted p W :=
  ⟨P.running, P.queue, P.shut.step C s gentle⟩

/-- Turns leave it at that. -/
theorem Parts.others (P : Parts V id cs l r) (C : V.Coherent) (s : V.Step g W)
    (gentle : ∀ s ∈ g, s.instr.gentle = true) (unstopped : ∀ s ∈ g, ∀ ms, s.instr ≠ .stop id ms) :
    Parts W id cs l r := by
  cases P with
  | begun hi =>
    obtain ⟨j, hj, same⟩ := s.running_kept gentle unstopped hi
    exact same ▸ .begun hj
  | stops w awaits =>
    exact .stops (w.others C s fun x hx => Instr.ne_start_of_gentle (gentle x hx)) awaits
  | saves P told => exact .saves (P.step C s gentle) told
  | writes P => exact .writes (P.step C s gentle)
  | verifies P => exact .verifies (P.step C s gentle)
  | past hid hf P => exact .past hid hf (P.step C s gentle)

theorem Parts.closing (P : Parts V id cs l r) : ∀ b ∈ l, b.closing = true := by
  cases P with
  | stops _ awaits =>
    exact List.forall_mem_append.mpr
      ⟨fun b hb => Instr.closing_of_awaiting (awaits b hb), by simp [Instr.closing]⟩
  | past => exact List.forall_mem_nil _
  | _ => simp [Instr.closing]

theorem Parts.over (P : Parts V id cs [] r) :
    ∃ p : Parting, p.id = id ∧ cs = p.closures ∧ p.failure = r.failure? ∧ Parted p V := by
  generalize e : ([] : List Instr) = l at P
  cases P with
  | stops => exact absurd (List.append_eq_nil_iff.mp e.symm).2 (List.cons_ne_nil _ _)
  | past hid hf P => exact ⟨_, hid, rfl, hf, P⟩
  | _ => cases e

/-- The stop of an instance begins. -/
theorem Waiting.begun {ms : Nat} (H : Life h V) (honest : ∀ s ∈ h, s.honest = true)
    (alone : ∀ b ∈ V.pending, ∀ turn, b.stops? ≠ some (id, turn)) (hi : V.machine.get? id = some i)
    (hW : W.machine = ((Instr.stop id ms).exec V.machine r).machine) :
    Waiting id ((Instr.stop id ms).exec V.machine r).next W :=
  .of_stop hi (H.undrained honest alone) hW (List.Subset.refl _)

/-- A shutdown goes on with an instance. -/
theorem Parts.own (P : Parts V id cs (a :: l) r) (H : Life h V) (honest : ∀ s ∈ h, s.honest = true)
    (alone : ∀ b ∈ V.pending, b ∈ a :: l ∨ b.stops? = none) (quiet : V.machine.hooks = ([], [], []))
    (s : V.Step [⟨V.machine, a⟩] W) (hW : W.machine = (a.exec V.machine r).machine)
    {later : List Instr} (fits : a.Fits V.machine.core later) :
    Parts W id (cs ++ (Section.closure? ⟨V.machine, a⟩).toList) ((a.exec V.machine r).next ++ l)
      (a.exec V.machine r).reply := by
  have C := H.coherent
  have gentle : ∀ s ∈ [(⟨V.machine, a⟩ : Section)], s.instr.gentle = true :=
    List.forall_mem_singleton.mpr (Instr.gentle_of_closing (P.closing a List.mem_cons_self))
  generalize e : a :: l = b at P
  cases P with
  | @begun i ms _ hi =>
    obtain ⟨rfl, rfl⟩ := List.cons.inj e
    have alone' : ∀ b ∈ V.pending, ∀ turn, b.stops? ≠ some (id, turn) := by
      intro b hb turn hs
      rcases alone b hb with own | none
      · simp only [List.mem_cons, List.not_mem_nil, or_false] at own
        rcases own with rfl | rfl <;> cases hs
      · cases none.symm.trans hs
    have awaits : ∀ b ∈ ((Instr.stop id ms).exec V.machine r).next, b.awaiting = true := by
      refine Instr.forall_leads fun i => ?_
      simp only
      split <;> simp [Instr.awaiting]
    have stops : Parts W id [.stops id i.slot.running]
        (((Instr.stop id ms).exec V.machine r).next ++ [.save id (.state i.slot.running)])
        ((Instr.stop id ms).exec V.machine r).reply :=
      .stops (.begun H honest alone' hi hW) awaits
    simpa [Section.closure?, hi] using stops
  | @stops running l' _ w awaits =>
    rcases l' with - | ⟨x, l'⟩
    · obtain ⟨rfl, rfl⟩ := List.cons.inj e
      obtain ⟨i, hi⟩ := w.here
      have shut : Shut id i.slot.queue.events W :=
        Shut.step ⟨w, queued_of_get? hi⟩ C s gentle
      have saves : Parts W id [.stops id running, .saves id i.slot.queue.events]
          [.save id (.vars running i.state)]
          ((Instr.save id (.state running)).exec V.machine r).reply := .saves shut rfl
      simpa [Section.closure?, hi, Instr.exec, Machine.save] using saves
    · obtain ⟨rfl, rfl⟩ := List.cons.inj e
      obtain ⟨waits, awaits'⟩ := List.forall_mem_cons.mp awaits
      have next := Instr.awaiting_next quiet r waits
      have w' := w.own C fits hW (Instr.ne_start_of_gentle (gentle _ (List.mem_singleton_self _)))
        (Section.honest_of_gentle (gentle _ (List.mem_singleton_self _)))
      have stops : Parts W id [.stops id running]
          (((a.exec V.machine r).next ++ l') ++ [.save id (.state running)])
          (a.exec V.machine r).reply :=
        .stops w' (List.forall_mem_append.mpr ⟨next, awaits'⟩)
      simpa [Section.closure?_of_awaiting waits] using stops
  | @saves running q t _ P told =>
    obtain ⟨rfl, rfl⟩ := List.cons.inj e
    obtain ⟨i, hi⟩ := P.rests.here
    have shut := P.step C s gentle
    cases t with
    | vars b state | plugins b state vars =>
      obtain rfl := Option.some.inj told
      simp only [Section.closure?, Option.toList_none, List.append_nil, Instr.exec, hi,
        Machine.save]
      exact .saves shut rfl
    | queue b state vars plugins =>
      obtain rfl := Option.some.inj told
      obtain rfl : i.slot.queue.events = q := (queued_of_get? hi).symm.trans P.queued
      simp only [Section.closure?, Option.toList_none, List.append_nil, Instr.exec, hi,
        Machine.save]
      exact .writes (d := ⟨state, b, vars, plugins, i.slot.queue.events, V.machine.clock⟩) shut
    | _ => cases told
  | @writes d _ P =>
    obtain ⟨rfl, rfl⟩ := List.cons.inj e
    obtain ⟨i, hi⟩ := P.rests.here
    have next : ((Instr.save id (.write d)).exec V.machine r).next = [.save id .verify] := by
      simp only [Instr.exec, hi, Machine.save]
    have closure : Section.closure? ⟨V.machine, .save id (.write d)⟩ = some (.writes id d) := by
      simp only [Section.closure?, hi, Option.bind_some]
      exact if_pos (Section.written_save hi)
    rw [next, closure]
    exact .verifies (P.step C s gentle)
  | @verifies d _ P =>
    obtain ⟨rfl, rfl⟩ := List.cons.inj e
    obtain ⟨i, hi⟩ := P.rests.here
    have shut := P.step C s gentle
    have answered : ∀ r', ((Instr.save id .verify).exec V.machine r').next = [] ∧
        ((Instr.save id .verify).exec V.machine r').reply =
          ((Instr.save id .verify).exec V.machine .nothing).reply := by
      intro r'
      simp only [Instr.exec, hi, Machine.save]
      split <;> exact ⟨rfl, rfl⟩
    rw [(answered r).1]
    exact .past (p := ⟨id, d.running, d.queue, d,
      ((Instr.save id .verify).exec V.machine .nothing).reply.failure?⟩) rfl
      (congrArg Reply.failure? (answered r).2.symm) ⟨rfl, rfl, shut⟩
  | past => cases e

/-! ## All instances -/

/-- The error of the first of these instances whose save failed. -/
def firstFailure (done : List Parting) : Option Error := done.findSome? (·.failure)

/-- How far a shutdown of these instances has got. -/
inductive Shutting (ids : List Nat) (V : System) : List Closure → List Instr → Reply → Prop where
  | each {done : List Parting} {rest : List Nat} {r : Reply} : done.map (·.id) ++ rest = ids →
      (∀ p ∈ done, Parted p V) →
      Shutting ids V (done.flatMap (·.closures)) [.shutdownEach rest (firstFailure done)] r
  | part {done : List Parting} {id : Nat} {rest : List Nat} {cs : List Closure} {l : List Instr}
      {r : Reply} : done.map (·.id) ++ id :: rest = ids → (∀ p ∈ done, Parted p V) →
      Parts V id cs l r → Shutting ids V (done.flatMap (·.closures) ++ cs)
        (l ++ [.saved rest (firstFailure done) true]) r
  | closed {done : List Parting} : done.map (·.id) = ids → (∀ p ∈ done, Parted p V) →
      Shutting ids V (done.flatMap (·.closures)) [] (Instr.firstFailure (firstFailure done))

variable {ids : List Nat}

/-- A shutdown begins. -/
theorem Shutting.start : Shutting ids V [] [.shutdownEach ids none] r :=
  @Shutting.each ids V [] ids r rfl (List.forall_mem_nil _)

theorem Shutting.others (P : Shutting ids V cs l r) (C : V.Coherent) (s : V.Step g W)
    (gentle : ∀ s ∈ g, s.instr.gentle = true)
    (unstopped : ∀ s ∈ g, ∀ id ms, s.instr ≠ .stop id ms) :
    Shutting ids W cs l r := by
  have kept : ∀ {done : List Parting}, (∀ p ∈ done, Parted p V) → ∀ p ∈ done, Parted p W :=
    fun h p hp => (h p hp).step C s gentle
  cases P with
  | each e h => exact .each e (kept h)
  | part e h P => exact .part e (kept h) (P.others C s gentle fun x hx => unstopped x hx _)
  | closed e h => exact .closed e (kept h)

theorem Shutting.closing (P : Shutting ids V cs l r) : ∀ b ∈ l, b.closing = true := by
  cases P with
  | each => simp [Instr.closing]
  | part _ _ P => exact List.forall_mem_append.mpr ⟨P.closing, by simp [Instr.closing]⟩
  | closed => exact List.forall_mem_nil _

/-- A shutdown goes on. -/
theorem Shutting.own (P : Shutting ids V cs (a :: l) r) (H : Life h V)
    (honest : ∀ s ∈ h, s.honest = true)
    (alone : ∀ b ∈ V.pending, b ∈ a :: l ∨ b.stops? = none) (quiet : V.machine.hooks = ([], [], []))
    (known : ∀ id ∈ ids, ∃ i, V.machine.get? id = some i)
    (s : V.Step [⟨V.machine, a⟩] W) (hW : W.machine = (a.exec V.machine r).machine)
    {later : List Instr} (fits : a.Fits V.machine.core later) :
    Shutting ids W (cs ++ (Section.closure? ⟨V.machine, a⟩).toList) ((a.exec V.machine r).next ++ l)
      (a.exec V.machine r).reply := by
  have kept : ∀ {done : List Parting}, (∀ p ∈ done, Parted p V) → ∀ p ∈ done, Parted p W :=
    fun h p hp => (h p hp).step H.coherent s
      (List.forall_mem_singleton.mpr (Instr.gentle_of_closing (P.closing a List.mem_cons_self)))
  generalize e : a :: l = b at P
  cases P with
  | @each done rest _ hids h =>
    obtain ⟨rfl, rfl⟩ := List.cons.inj e
    have none : Section.closure? ⟨V.machine, .shutdownEach rest (firstFailure done)⟩ = .none := rfl
    rw [none, Option.toList_none, List.append_nil, List.append_nil]
    rcases rest with - | ⟨id, rest⟩
    · exact .closed (by simpa using hids) (kept h)
    · obtain ⟨i, hi⟩ := known id (by simp [← hids])
      have here : W.machine.get? id = some i := by
        simp [hW, Instr.exec, Instr.leads, hi]
      have begun : Parts W id []
          [.stop id V.machine.stopTimeout, .save id (.state i.slot.running)] r := .begun here
      have part := Shutting.part hids (kept h) begun
      simp only [Instr.exec, Instr.leads, hi]
      simpa using part
  | @part done id rest cs l' _ hids h P =>
    rcases l' with - | ⟨x, l'⟩
    · obtain ⟨rfl, rfl⟩ := List.cons.inj e
      obtain ⟨p, rfl, rfl, failure, P⟩ := P.over
      have hids' : (done ++ [p]).map (·.id) ++ rest = ids := by simpa using hids
      have all : ∀ q ∈ done ++ [p], Parted q W :=
        kept (List.forall_mem_append.mpr ⟨h, List.forall_mem_singleton.mpr P⟩)
      have first : firstFailure (done ++ [p]) = (firstFailure done).or r.failure? := by
        rw [firstFailure, List.findSome?_append, ← failure]
        simp [firstFailure]
      have each := Shutting.each (r := r) hids' all
      have next : ((Instr.saved rest (firstFailure done) true).exec V.machine r).next =
          [.shutdownEach rest ((firstFailure done).or r.failure?)] := by
        cases hf : firstFailure done <;> cases r <;> rfl
      rw [next, ← first]
      simpa [Section.closure?, Instr.exec] using each
    · obtain ⟨rfl, rfl⟩ := List.cons.inj e
      have alone' : ∀ b ∈ V.pending, b ∈ a :: l' ∨ b.stops? = none := by
        intro b hb
        rcases alone b hb with own | none
        · rcases List.mem_append.mp (show b ∈ (a :: l') ++ [_] from own) with own | last
          · exact .inl own
          · exact .inr (by rw [List.mem_singleton.mp last]; rfl)
        · exact .inr none
      have part := Shutting.part hids (kept h) (P.own H honest alone' quiet s hW fits)
      rwa [← List.append_assoc, List.append_assoc ((a.exec V.machine r).next)] at part
  | closed => cases e

/-- A shutdown is under way on the thread `k`, and nobody else is at an operation. -/
structure Ongoing (k : Nat) (rest : List Instr) (ids : List Nat) (g : List Section) (V : System)
    (left : List Instr) (r : Reply) : Prop where
  here : V.threads[k]? = some ⟨left ++ rest, r⟩
  stage : Shutting ids V (g.filterMap Section.closure?) left r
  quiet : V.machine.hooks = ([], [], [])
  registered : V.machine.registered.map (·.2) = ids
  rest : ∀ b ∈ rest, b.calm = true
  others : ∀ j t, j ≠ k → V.threads[j]? = some t → ∀ b ∈ t.agenda, b.calm = true
  gentle : ∀ s ∈ g, s.instr.gentle = true

namespace Ongoing

variable {left : List Instr} {g' : List Section}

theorem known (O : Ongoing k rest ids g V left r) (H : Life h V) :
    ∀ id ∈ ids, ∃ i, V.machine.get? id = some i := by
  rw [← O.registered]
  exact H.registered_known

theorem pending (O : Ongoing k rest ids g V left r) :
    ∀ b ∈ V.pending, b ∈ left ∨ b.calm = true := by
  intro b hb
  obtain ⟨t, ht, hb⟩ := mem_pending.mp hb
  obtain ⟨j, hj⟩ := List.getElem?_of_mem ht
  by_cases hjk : j = k
  · subst hjk
    obtain rfl := Option.some.inj (hj.symm.trans O.here)
    exact (List.mem_append.mp hb).imp_right (O.rest b)
  · exact .inr (O.others j t hjk hj b hb)

/-- Something else happens. -/
theorem stays (O : Ongoing k rest ids g V left r) (C : V.Coherent) (s : V.Step g' W)
    (here : W.threads[k]? = V.threads[k]?) (quiet : W.machine.hooks = ([], [], []))
    (others : ∀ j t, j ≠ k → W.threads[j]? = some t → ∀ b ∈ t.agenda, b.calm = true)
    (calm : ∀ s ∈ g', s.instr.calm = true)
    (alone : ∀ s ∈ g', ∀ o, s.instr = .op o → o.ambient = true) :
    Ongoing k rest ids (g ++ g') W left r where
  here := here.trans O.here
  stage := by
    have none : g'.filterMap Section.closure? = [] := List.filterMap_eq_nil_iff.mpr fun x hx =>
      Section.closure?_of_calm (calm x hx)
    rw [List.filterMap_append, none, List.append_nil]
    refine O.stage.others C s (fun x hx => Instr.gentle_of_calm (calm x hx) (alone x hx)) ?_
    intro x hx id ms e
    have := calm x hx
    rw [e] at this
    cases this
  quiet := quiet
  registered := (s.registered_kept fun x hx => Instr.gentle_of_calm (calm x hx) (alone x hx)).trans
    O.registered
  rest := O.rest
  others := others
  gentle := List.forall_mem_append.mpr
    ⟨O.gentle, fun x hx => Instr.gentle_of_calm (calm x hx) (alone x hx)⟩

/-- A thread comes that has not begun. -/
theorem joins (O : Ongoing k rest ids g V left r) {t : Thread}
    (begins : ∀ b ∈ t.agenda, b.calm = true) :
    (V.threads ++ [t])[k]? = V.threads[k]? ∧
      ∀ j u, j ≠ k → (V.threads ++ [t])[j]? = some u → ∀ b ∈ u.agenda, b.calm = true := by
  refine ⟨List.getElem?_append_left (List.getElem?_eq_some_iff.mp O.here).1, fun j u hj hu => ?_⟩
  rw [List.getElem?_append] at hu
  split at hu
  · exact O.others j u hj hu
  · obtain rfl : u = t := List.mem_singleton.mp (List.mem_of_getElem? hu)
    exact begins

/-- Whatever happens, the shutdown is under way until it has nothing left to do. -/
theorem step (O : Ongoing k rest ids g V left r) (H : Life (h ++ g) V)
    (honest : ∀ s ∈ h, s.honest = true) (s : V.Step g' W)
    (alone : ∀ s ∈ g', ∀ o, s.instr = .op o → o.ambient = true) (more : left ≠ []) :
    ∃ left' r', Ongoing k rest ids (g ++ g') W left' r' := by
  have s' := s
  have C := H.coherent
  cases s with
  | call o =>
    obtain ⟨here, others⟩ := O.joins (t := .ofOp o) (by simp [Thread.ofOp, Instr.calm])
    exact ⟨left, r, O.stays C s' here O.quiet others (List.forall_mem_nil _)
      (List.forall_mem_nil _)⟩
  | @claim _ _ n x =>
    obtain ⟨here, others⟩ := O.joins (t := .ofJob x.owner x.ticket n)
      (by simp [Thread.ofJob, Instr.calm])
    exact ⟨left, r, O.stays C s' here O.quiet others (List.forall_mem_nil _)
      (List.forall_mem_nil _)⟩
  | refuse b _ =>
    exact ⟨left, r, O.stays C s' rfl O.quiet O.others (List.forall_mem_nil _)
      (List.forall_mem_nil _)⟩
  | @move m m' ts j t t' a ht ha hs =>
    obtain ⟨b, tail, hb, -, rfl, rfl⟩ := Thread.step?_eq_some hs
    obtain rfl : b = a := by simpa [hb] using ha
    have op := alone _ (List.mem_singleton_self _)
    have quiet := Instr.hooks_next O.quiet t.reply op
    by_cases hj : j = k
    · subst hj
      obtain rfl := Option.some.inj (ht.symm.trans O.here)
      obtain ⟨x, l, rfl⟩ := List.exists_cons_of_ne_nil more
      obtain ⟨rfl, rfl⟩ := List.cons.inj hb
      have before : ∀ s ∈ h ++ g, s.honest = true := List.forall_mem_append.mpr
        ⟨honest, fun s hs => Section.honest_of_gentle (O.gentle s hs)⟩
      have own := O.stage.own H before
        (fun b hb => (O.pending b hb).imp_right Instr.stops?_of_calm) O.quiet (O.known H) s' rfl
        (C.agendas _ (List.mem_of_getElem? ht)).1
      have gentle : ∀ s ∈ [(⟨m, x⟩ : Section)], s.instr.gentle = true :=
        List.forall_mem_singleton.mpr
          (Instr.gentle_of_closing (O.stage.closing x List.mem_cons_self))
      refine ⟨(x.exec m r).next ++ l, (x.exec m r).reply, ?_, ?_, quiet,
        (s'.registered_kept gentle).trans O.registered, O.rest, fun i u hi hu => ?_,
        List.forall_mem_append.mpr ⟨O.gentle, gentle⟩⟩
      · rw [List.getElem?_set_self (List.getElem?_eq_some_iff.mp ht).1, List.append_assoc]
        rfl
      · rw [List.filterMap_append]
        cases hc : Section.closure? ⟨m, x⟩ <;> simpa [hc] using own
      · exact O.others i u hi ((List.getElem?_set_ne (Ne.symm hi)).symm.trans hu)
    · have calm := O.others j t hj ht
      refine ⟨left, r, O.stays C s' (List.getElem?_set_ne hj) quiet (fun i u hi hu => ?_)
        (List.forall_mem_singleton.mpr (calm b (hb ▸ List.mem_cons_self))) alone⟩
      by_cases hij : j = i
      · subst hij
        rw [List.getElem?_set_self (List.getElem?_eq_some_iff.mp ht).1] at hu
        obtain rfl := Option.some.inj hu
        rw [hb] at calm
        obtain ⟨hcalm, htail⟩ := List.forall_mem_cons.mp calm
        exact List.forall_mem_append.mpr ⟨Instr.calm_next m t.reply hcalm op, htail⟩
      · exact O.others i u hi ((List.getElem?_set_ne hij).symm.trans hu)

end Ongoing

/-- A shutdown is under way, or it has come to its end. -/
theorem Run.shuts {left : List Instr} {ids : List Nat} (r : Run S g T) (H : Life h S)
    (honest : ∀ s ∈ h, s.honest = true) {r₀ : Reply} (O : Ongoing k rest ids [] S left r₀)
    (alone : ∀ s ∈ g, ∀ o, s.instr = .op o → o.ambient = true) :
    (∃ left r, left ≠ [] ∧ Ongoing k rest ids g T left r) ∨
    ∃ g₁ g₂ V r, g = g₁ ++ g₂ ∧ Run S g₁ V ∧ Run V g₂ T ∧ Ongoing k rest ids g₁ V [] r := by
  have ended : ∀ {g : List Section} {T : System} {left : List Instr} {r : Reply}, Run S g T →
      Ongoing k rest ids g T left r → (∃ left r, left ≠ [] ∧ Ongoing k rest ids g T left r) ∨
      ∃ g₁ g₂ V r, g = g₁ ++ g₂ ∧ Run S g₁ V ∧ Run V g₂ T ∧ Ongoing k rest ids g₁ V [] r := by
    intro g T left r run O
    rcases left with - | ⟨a, left⟩
    · exact .inr ⟨g, [], T, r, (List.append_nil g).symm, run, .refl, O⟩
    · exact .inl ⟨_, r, List.cons_ne_nil _ _, O⟩
  induction r with
  | refl => exact ended .refl O
  | @snoc g g' V W run s ih =>
    obtain ⟨alone₁, alone₂⟩ := List.forall_mem_append.mp alone
    rcases ih alone₁ with ⟨left, r, more, O⟩ | ⟨g₁, g₂, X, r, rfl, r₁, r₂, O⟩
    · obtain ⟨left', r', O'⟩ := O.step (H.run run) honest s alone₂ more
      exact ended (.snoc run s) O'
    · exact .inr ⟨g₁, g₂ ++ g', X, r, List.append_assoc .., r₁, .snoc r₂ s, O⟩

theorem Parts.efforts (P : Parts V id cs l r) : ∀ b ∈ l, 0 < b.effort := by
  have save : ∀ s : Saving, 0 < (Instr.save id s).effort := fun s => by
    cases s <;> exact Nat.succ_pos _
  cases P with
  | begun => simp [Instr.effort]
  | stops _ awaits =>
    exact List.forall_mem_append.mpr ⟨fun b hb => Instr.effort_of_awaiting (awaits b hb),
      List.forall_mem_singleton.mpr (save _)⟩
  | past => exact List.forall_mem_nil _
  | _ => exact List.forall_mem_singleton.mpr (save _)

theorem passes_shutdownEach (rest : List Nat) (first : Option Error) :
    Instr.Passes [.shutdownEach rest first] := by
  induction rest generalizing first with
  | nil => exact .leads (fun _ => rfl) nofun fun _ _ _ => .nil
  | cons id rest ih =>
    refine .leads (fun _ => rfl) nofun fun m r _ => ?_
    have saved : Instr.Passes [.saved rest first true] :=
      .leads (fun _ => rfl) nofun fun _ _ _ => ih _
    simp only [Instr.exec, Instr.leads]
    split
    · exact .append (l := [.stop _ _, .save _ _]) (.of_effort (by simp [Instr.effort])) saved
    · exact .nil

/-- A shutdown that is left alone comes to its end. -/
theorem Shutting.passes {ids : List Nat} (P : Shutting ids V cs l r) : Instr.Passes l := by
  cases P with
  | each => exact passes_shutdownEach _ _
  | part _ _ P =>
    exact (Instr.Passes.of_effort P.efforts).append
      (.leads (fun _ => rfl) nofun fun _ _ _ => passes_shutdownEach _ _)
  | closed => exact .nil

theorem Shutting.done {ids : List Nat} (P : Shutting ids V cs [] r) : ∃ done : List Parting,
    done.map (·.id) = ids ∧ (∀ p ∈ done, Parted p V) ∧ cs = done.flatMap (·.closures) ∧
      r = Instr.firstFailure (firstFailure done) := by
  generalize e : ([] : List Instr) = l at P
  cases P with
  | each => cases e
  | part => exact absurd (List.append_eq_nil_iff.mp e.symm).2 (List.cons_ne_nil _ _)
  | closed hids h => exact ⟨_, hids, h, rfl, rfl⟩

/-- What a shutdown guarantees on a host whose waits do not lie, if nobody is at an operation, nobody
is called back and, before it comes back, no operation is called but to change the surroundings: the
store may come to fail and to work again at any time. As long as the shutdown is under way it comes
to its end if it is left alone. When it comes back, all registered instances have been stopped and
saved, once each and one after the other, whether or not saves failed: the document of each says
whether the instance ran when its stop began, and has the events that were queued when the stop was
over. The answer is the error of the first of them whose save failed, and nothing else if none did.
No registered instance runs, none has a turn outstanding, and their queues are as they were saved. -/
theorem shutdown_reaches {r₀ : Reply} {m : Machine} {t : Thread} (H : Life h S)
    (hk : S.threads[k]? = some ⟨.op .shutdown :: rest, r₀⟩)
    (calm : ∀ b ∈ S.pending, b.calm = true) (unhooked : S.machine.hooks = ([], [], []))
    (honest : ∀ s ∈ h, s.honest = true)
    (begins : Thread.step? S.machine ⟨.op .shutdown :: rest, r₀⟩ = some (m, t))
    (r : Run ⟨m, S.threads.set k t⟩ g T) (alone : ∀ s ∈ g, ∀ o, s.instr = .op o → o.ambient = true) :
    (∃ left r₁ fuel m' r', left ≠ [] ∧ T.threads[k]? = some ⟨left ++ rest, r₁⟩ ∧
      Thread.run fuel T.machine ⟨left ++ rest, r₁⟩ = (m', ⟨rest, r'⟩)) ∨
    ∃ g₁ g₂ V, ∃ done : List Parting, g = g₁ ++ g₂ ∧ Run ⟨m, S.threads.set k t⟩ g₁ V ∧
      Run V g₂ T ∧
      V.threads[k]? = some ⟨rest, Instr.firstFailure (done.findSome? (·.failure))⟩ ∧
      done.map (·.id) = S.machine.registered.map (·.2) ∧ (done.map (·.id)).Nodup ∧
      V.machine.registered.map (·.2) = S.machine.registered.map (·.2) ∧
      g₁.filterMap Section.closure? = done.flatMap (·.closures) ∧
      ∀ p ∈ done, p.document.running = p.running ∧ p.document.queue = p.queued ∧
        ∃ i, V.machine.get? p.id = some i ∧ i.slot.running = false ∧ i.slot.current = none ∧
          i.slot.queue.events = p.queued := by
  have H' := H.run (.snoc .refl (Step.move hk rfl begins))
  have honest' : ∀ s ∈ h ++ [⟨S.machine, .op .shutdown⟩], s.honest = true :=
    List.forall_mem_append.mpr ⟨honest, List.forall_mem_singleton.mpr rfl⟩
  obtain ⟨a, tail, ha, -, rfl, rfl⟩ := Thread.step?_eq_some begins
  obtain ⟨rfl, rfl⟩ := List.cons.inj ha
  have hlt := (List.getElem?_eq_some_iff.mp hk).1
  have O : Ongoing k rest (S.machine.registered.map (·.2)) []
      ⟨((Instr.op .shutdown).exec S.machine r₀).machine, S.threads.set k
        ⟨((Instr.op .shutdown).exec S.machine r₀).next ++ rest,
          ((Instr.op .shutdown).exec S.machine r₀).reply⟩⟩
      [.shutdownEach (S.machine.registered.map (·.2)) none] .nothing :=
    { here := List.getElem?_set_self hlt
      stage := Shutting.start
      quiet := unhooked
      registered := rfl
      rest := fun b hb => calm b (mem_pending.mpr
        ⟨_, List.mem_of_getElem? hk, List.mem_cons_of_mem _ hb⟩)
      others := fun j t hj ht b hb => calm b (mem_pending.mpr
        ⟨t, List.mem_of_getElem? ((List.getElem?_set_ne (Ne.symm hj)).symm.trans ht), hb⟩)
      gentle := List.forall_mem_nil _ }
  rcases r.shuts H' honest' O alone with ⟨left, r₁, more, O⟩ | ⟨g₁, g₂, V, r₁, rfl, r₁₂, r₂₃, O⟩
  · obtain ⟨fuel, m', r', passed, -⟩ := O.stage.passes T.machine r₁ rest O.quiet
    exact .inl ⟨left, r₁, fuel, m', r', more, O.here, passed⟩
  · obtain ⟨done, hids, parted, hcs, rfl⟩ := O.stage.done
    refine .inr ⟨g₁, g₂, V, done, rfl, r₁₂, r₂₃, O.here, hids, hids ▸ H.listed.ids_nodup,
      O.registered, hcs, fun p hp => ?_⟩
    obtain ⟨running, queue, shut⟩ := parted p hp
    obtain ⟨i, hi, halted, idle⟩ := shut.rests.over
    exact ⟨running, queue, i, hi, halted, idle, (queued_of_get? hi).symm.trans shut.queued⟩

/-- A host with a script whose handler is stuck, with an event queued behind it, and another script
whose turn has not begun; the store fails to write. -/
def manned : List Section × System := System.play 60 ⟨.bare false, []⟩
  [.call (.loadNew "a" 1 (.answering [("state_entry", [.park true])])), .claim 1, .go 1,
    .call (.post "a" (.plain "x" [])), .call (.loadIdle "b" 2), .call (.switch .failWrite true)]

/-- A shutdown has been called. -/
def closingDown : List Section × System := System.play 0 manned.2 [.call .shutdown]

/-- It has begun. -/
def closingBegun : List Section × System := System.play 1 closingDown.2 [.go 5]

/-- It has stopped the first script, and failed to save it. -/
def closingOn : List Section × System := System.play 13 closingBegun.2 [.go 5]

/-- The store works again, and the shutdown comes back. -/
def closedDown : List Section × System := System.play 60 closingOn.2
  [.call (.switch .failWrite false), .go 5]

theorem shutdown_reaches_manned : ∃ g₁ g₂ V, ∃ done : List Parting,
    closingOn.1 ++ closedDown.1 = g₁ ++ g₂ ∧
    Run closingBegun.2 g₁ V ∧ Run V g₂ closedDown.2 ∧
    V.threads[5]? = some ⟨[], Instr.firstFailure (done.findSome? (·.failure))⟩ ∧
    closedDown.2.threads[5]? = some ⟨[], .failedKind (.stateNotPersisted (.ofNat 1))⟩ ∧
    (closedDown.2.machine.size (.ofNat 1)).toOption.join.isSome = false ∧
    (closedDown.2.machine.size (.ofNat 2)).toOption.join.isSome = true ∧
    done.map (·.id) = [0, 1] ∧ g₁.filterMap Section.closure? = done.flatMap (·.closures) ∧
    ∀ p ∈ done, p.document.running = p.running ∧ p.document.queue = p.queued ∧
      ∃ i, V.machine.get? p.id = some i ∧ i.slot.running = false ∧ i.slot.current = none ∧
        i.slot.queue.events = p.queued := by
  obtain ⟨r₀, m, t, hk, begins, begun, ids⟩ : ∃ r₀ m t,
      closingDown.2.threads[5]? = some ⟨[.op .shutdown], r₀⟩ ∧
      Thread.step? closingDown.2.machine ⟨[.op .shutdown], r₀⟩ = some (m, t) ∧
      closingBegun.2 = ⟨m, closingDown.2.threads.set 5 t⟩ ∧
      closingDown.2.machine.registered.map (·.2) = [0, 1] := ⟨_, _, _, rfl, rfl, rfl, rfl⟩
  have H : Life (manned.1 ++ closingDown.1) closingDown.2 :=
    (Life.play false 60 _).run (Run.play 0 _ _)
  have r : Run closingBegun.2 (closingOn.1 ++ closedDown.1) closedDown.2 :=
    (Run.play 13 _ _).trans (Run.play 60 _ _)
  have calm : closingDown.2.pending.all (·.calm) = true := rfl
  have honest : (manned.1 ++ closingDown.1).all (·.honest) = true := by decide
  have alone : (closingOn.1 ++ closedDown.1).all (·.instr.gentle) = true := rfl
  rw [begun] at r ⊢
  rcases shutdown_reaches H hk (List.all_eq_true.mp calm) rfl (List.all_eq_true.mp honest) begins r
    (fun s hs o he => by simpa [he, Instr.gentle] using List.all_eq_true.mp alone s hs) with
    ⟨l, r₁, -, -, -, more, hT, -⟩ | ⟨g₁, g₂, V, done, hg, r₁, r₂, back, hids, -, -, hcs, all⟩
  · have back : closedDown.2.threads[5]?.map Thread.agenda = some [] := rfl
    rw [hT] at back
    exact absurd (List.append_eq_nil_iff.mp (Option.some.inj back)).1 more
  · exact ⟨g₁, g₂, V, done, hg, r₁, r₂, back, rfl, rfl, rfl, hids.trans ids, hcs, all⟩

end System

end ScriptHost
