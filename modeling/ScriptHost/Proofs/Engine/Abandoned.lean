import Mathlib.Data.List.Nodup
import Mathlib.Data.List.Pairwise
import ScriptHost.Proofs.Engine.Turning

/-!
# Abandoned turns

What a turn has still to do is what is left of operations that its handler has
called, then what it is carrying out for the script (the switch of a state, or
what its handler has asked for), then sections of its own (`Remains`). The last
leave alone all that others see of the instance but its variables (`Inert`), and
a turn that is not the outstanding one comes by nothing new to carry out. So a
turn that has been abandoned does no harm once it has nothing left to carry out
(`abandoned_inert`); what it was carrying out when it was abandoned it goes on
with.
-/

namespace ScriptHost

/-! ## What the sections of a turn leave alone -/

/-- Notes that concern neither the pool nor the store, nor what has been granted to a script. -/
def Note.quiet : Note → Bool
  | .dispatch _ | .cancel _ _ | .abort _ | .wait _ _ | .clearPermissions _ _
  | .importData _ _ _ _ | .removePlugins _ _ | .write _ _ | .remove _ => false
  | _ => true

namespace Machine

/-- From one machine to the other nothing has been asked of the pool, the store or the world on
behalf of a script, and no instance has changed its slot, its named state or what it shows of the
executing event. -/
structure Inert (m m' : Machine) : Prop where
  core : m'.core = m.core
  store : m'.store = m.store
  shown : ∀ id i, m.get? id = some i → ∃ i', m'.get? id = some i' ∧ i'.state = i.state ∧
    i'.detected = i.detected ∧ i'.currentEvent = i.currentEvent
  notes : ∃ l, m'.trace = l ++ m.trace ∧ ∀ n ∈ l, n.quiet = true

namespace Inert

variable {m n m' : Machine}

theorem refl (m : Machine) : m.Inert m :=
  ⟨rfl, rfl, fun _ i hi => ⟨i, hi, rfl, rfl, rfl⟩, [], rfl, by simp⟩

theorem trans (h : m.Inert n) (h' : n.Inert m') : m.Inert m' where
  core := h'.core.trans h.core
  store := h'.store.trans h.store
  shown id i hi := by
    obtain ⟨j, hj, hs, hd, hc⟩ := h.shown id i hi
    obtain ⟨k, hk, hs', hd', hc'⟩ := h'.shown id j hj
    exact ⟨k, hk, hs'.trans hs, hd'.trans hd, hc'.trans hc⟩
  notes := by
    obtain ⟨l, hl, quiet⟩ := h.notes
    obtain ⟨l', hl', quiet'⟩ := h'.notes
    refine ⟨l' ++ l, by rw [hl', hl, List.append_assoc], fun n hn => ?_⟩
    exact (List.mem_append.mp hn).elim (quiet' n) (quiet n)

theorem note (h : m.Inert n) (x : Note) (hx : x.quiet = true) : m.Inert (n.note x) :=
  h.trans ⟨rfl, rfl, fun _ i hi => ⟨i, hi, rfl, rfl, rfl⟩, [x], rfl, by simpa using hx⟩

theorem log (h : m.Inert n) (l : Level) (s : String) : m.Inert (n.log l s) := h.note _ rfl

theorem count (h : m.Inert n) (c : Metric) : m.Inert (n.count c) := h.note _ rfl

theorem modify (h : m.Inert n) (k : Nat) {f : Instance → Instance}
    (hf : ∀ i, (f i).slot = i.slot ∧ (f i).identity = i.identity ∧ (f i).state = i.state ∧
      (f i).detected = i.detected ∧ (f i).currentEvent = i.currentEvent) :
    m.Inert (n.modify k f) := by
  refine h.trans ⟨core_modify _ _ _ (fun i => (hf i).1) (fun i => (hf i).2.1), rfl,
    fun id i hi => ?_, [], rfl, by simp⟩
  rw [get?_modify, hi]
  split
  · exact ⟨f i, rfl, (hf i).2.2⟩
  · exact ⟨i, rfl, rfl, rfl, rfl⟩

theorem ite {c : Prop} [Decidable c] (h : m.Inert n) (h' : m.Inert m') :
    m.Inert (if c then n else m') := by
  split
  · exact h
  · exact h'

theorem of_leads {r : Reply} {k : Nat} {f : Instance → Machine × List Instr}
    (h : ∀ i, m.Inert (f i).1) : m.Inert (Instr.leads m r k f).machine := by
  unfold Instr.leads
  split
  · exact h _
  · exact refl m

end Inert

theorem inert_takeDeleteHook (m : Machine) : m.Inert m.takeDeleteHook.1 := by
  unfold takeDeleteHook
  split
  · exact .refl m
  · exact ⟨rfl, rfl, fun _ i hi => ⟨i, hi, rfl, rfl, rfl⟩, [], rfl, by simp⟩

theorem inert_takeMessageHook (m : Machine) : m.Inert m.takeMessageHook.1 := by
  unfold takeMessageHook
  split
  · exact .refl m
  · exact ⟨rfl, rfl, fun _ i hi => ⟨i, hi, rfl, rfl, rfl⟩, [], rfl, by simp⟩

theorem inert_settle (m : Machine) (k : Nat) : m.Inert (m.settle k) := by
  unfold settle
  split
  · exact .refl m
  · exact .modify (.ite (.note (.refl m) _ rfl) (.refl m)) k fun i => ⟨rfl, rfl, rfl, rfl, rfl⟩

theorem inert_enter (m : Machine) (i : Instance) (v : Invocation) :
    m.Inert (m.enter i v).1 := by
  have noted : ∀ x : Note, x.quiet = true → m.Inert (m.note x) := (Inert.refl m).note
  unfold enter
  simp only
  split
  · exact noted _ rfl
  · exact (noted _ rfl).modify _ fun i => ⟨rfl, rfl, rfl, rfl, rfl⟩

theorem inert_act (m : Machine) (i : Instance) (v : Invocation) (l : List Action) :
    m.Inert (m.act i v l).1 := by
  have set : ∀ name value, m.Inert
      (m.modify v.id fun i => { i with live := i.live.insert name value }) := fun _ _ =>
    .modify (.refl m) _ fun i => ⟨rfl, rfl, rfl, rfl, rfl⟩
  cases l with
  | nil => exact .refl m
  | cons a l =>
    cases a with
    | set | increment => exact set _ _
    | takeArgument =>
      simp only [act]
      split
      · exact set _ _
      · exact .refl m
    | cancelIfInterrupted =>
      simp only [act]
      split <;> exact .refl m
    | showInterrupt | showContext | showCapability => exact .note (.refl m) _ rfl
    | _ => exact .refl m

theorem inert_selfDelete (m : Machine) (id : Nat) (i : Instance) :
    m.Inert (m.selfDelete id i).1 := by
  have flag : m.Inert (m.modify id fun i => { i with selfDeleting := true }) :=
    .modify (.refl m) _ fun i => ⟨rfl, rfl, rfl, rfl, rfl⟩
  unfold selfDelete
  simp only
  split
  · exact flag.log _ _
  · exact (flag.log _ _).trans (inert_takeDeleteHook _)

theorem inert_showFault (m : Machine) (i : Instance) (f : Fault) :
    m.Inert (m.showFault i f).1 := by
  have counted : m.Inert ((m.count .fault).log .error "script runtime error") :=
    ((Inert.refl m).count _).log _ _
  unfold showFault
  simp only
  split
  · exact counted.log _ _
  · exact counted.trans (inert_takeMessageHook _)

theorem inert_conclude (m : Machine) (v : Invocation) (o : Outcome) :
    m.Inert (m.conclude v o).1 := by
  cases o with
  | eventAborted | cancelled => exact .log (.refl m) _ _
  | _ => exact .refl m

/-- Nothing that a turn does for itself shows, but for variables. -/
theorem inert_exec (m : Machine) (r : Reply) {a : Instr} {v : Invocation} (h : a.belongs v) :
    m.Inert (a.exec m r).machine := by
  cases a with
  | readDetected w => exact .of_leads fun i => .refl m
  | lockScript w => exact .modify (.refl m) _ fun i => ⟨rfl, rfl, rfl, rfl, rfl⟩
  | enter w => exact .of_leads fun i => inert_enter m i w
  | act w l => exact .of_leads fun i => inert_act m i w l
  | applyRequests w o =>
    refine .of_leads fun i => ?_
    split
    · exact .refl m
    · exact .ite (.refl m) (.log (.refl m) _ _)
  | conclude w o => exact inert_conclude m w o
  | showFault w f => exact .of_leads fun i => inert_showFault m i f
  | record w o =>
    simp only [Instr.exec, Instr.about]
    split
    · exact (((Inert.refl m).note _ rfl).count _).count _
    · exact .refl m
  | settle => exact inert_settle m _
  | unlock => exact .modify (.refl m) _ fun i => ⟨rfl, rfl, rfl, rfl, rfl⟩
  | selfDelete id => exact .of_leads fun i => inert_selfDelete m id i
  | parked => exact .refl m
  | deleted => exact .ite (.log (.refl m) _ _) (.note (.refl m) _ rfl)
  | delivered => exact .ite (.log (.refl m) _ _) (.note (.refl m) _ rfl)
  | _ => exact h.elim

theorem inert_finishTurn {m : Machine} {n id ticket : Nat} (h : m.core.Stale n id ticket)
    (r : Reply) : m.Inert ((Instr.finishTurn id ticket).exec m r).machine := by
  rw [exec_finishTurn_of_stale h]
  exact .log (.refl m) _ _

end Machine

/-! ## What a turn has still to do -/

/-- What is left to do of operations that have been called. -/
inductive Calls : List Instr → Prop where
  | called (ops : List Op) : Calls (Instr.nested ops)
  | next (m : Machine) (r : Reply) {a : Instr} {l : List Instr} : Calls (a :: l) →
      Calls ((a.exec m r).next ++ l)

/-- What is left of called operations, then `asked`, which is carried out for the script, then
sections of the turn's own. -/
def Remains (id ticket : Nat) (asked l : List Instr) : Prop :=
  ∃ called own v, l = called ++ asked ++ own ∧ Calls called ∧
    (∀ b ∈ asked, b.carriesOut id = true) ∧ v.id = id ∧ v.ticket = ticket ∧
    ∀ b ∈ own, Instr.belongs v b

namespace Remains

variable {id ticket : Nat} {a : Instr} {asked l : List Instr}

theorem of_asked (h : ∀ b ∈ asked, b.carriesOut id = true) : Remains id ticket asked asked :=
  ⟨[], [], { (default : Invocation) with id := id, ticket := ticket }, by simp, .called [], h,
    rfl, rfl, by simp⟩

theorem of_own (v : Invocation) (h : ∀ b ∈ l, Instr.belongs v b) :
    Remains v.id v.ticket [] l :=
  ⟨[], l, v, rfl, .called [], by simp, rfl, rfl, h⟩

/-- A section of a turn leaves what it was carrying out, or what is left of it; it comes by
something to carry out only as the outstanding turn. -/
theorem next (R : Remains id ticket asked (a :: l)) (m : Machine) (r : Reply) :
    ∃ asked', Remains id ticket asked' ((a.exec m r).next ++ l) ∧
      (asked = [] → asked' ≠ [] → ∃ i, m.get? id = some i ∧ i.owns ticket = true) := by
  obtain ⟨called, own, v, e, hc, hasked, rfl, rfl, hown⟩ := R
  rcases called with - | ⟨x, called⟩
  · rcases asked with - | ⟨x, asked⟩
    · rcases own with - | ⟨x, own⟩
      · cases e
      · cases e
        obtain ⟨ops, asked', own', hn, hasked', hown', owned⟩ :=
          Machine.next_of_belongs m r (hown _ List.mem_cons_self)
        refine ⟨asked', ⟨_, own' ++ l, v, by rw [hn, List.append_assoc], .called ops, hasked',
          rfl, rfl, fun b hb => ?_⟩, fun _ => owned⟩
        exact (List.mem_append.mp hb).elim (hown' b) fun hb => hown b (List.mem_cons_of_mem _ hb)
    · obtain ⟨rfl, rfl⟩ := List.cons.inj e
      refine ⟨(a.exec m r).next ++ asked, ⟨[], own, v, by simp, .called [], fun b hb => ?_,
        rfl, rfl, hown⟩, fun h => by cases h⟩
      exact (List.mem_append.mp hb).elim
        (Machine.next_carriesOut m r (hasked _ List.mem_cons_self) b)
        fun hb => hasked b (List.mem_cons_of_mem _ hb)
  · obtain ⟨rfl, rfl⟩ := List.cons.inj e
    exact ⟨asked, ⟨_, own, v, by simp, hc.next m r, hasked, rfl, rfl, hown⟩,
      fun h h' => absurd h h'⟩

end Remains

namespace System

/-- A thread is at the turn, and has still to do `l` before it finishes it. -/
def AtTurn (S : System) (id ticket : Nat) (l : List Instr) : Prop :=
  ∃ t ∈ S.threads, ∃ rest, t.agenda = l ++ .finishTurn id ticket :: rest

section

variable {S T : System} {a : Instr} {l rest : List Instr} {reply : Reply} {others : List Thread}
  {id ticket : Nat}

/-- A thread that comes anew is at no turn. -/
theorem AtTurn.of_append {m n : Machine} {ts : List Thread} {t : Thread}
    (h : AtTurn ⟨m, ts ++ [t]⟩ id ticket l) (new : .finishTurn id ticket ∉ t.agenda) :
    AtTurn ⟨n, ts⟩ id ticket l := by
  obtain ⟨u, hu, after, ha⟩ := h
  rcases List.mem_append.mp hu with hu | hu
  · exact ⟨u, hu, after, ha⟩
  · obtain rfl := List.mem_singleton.mp hu
    exact absurd (by simp [ha]) new

/-- Whoever is at a turn was so before, and has done the section if anybody there did; or the turn
has just taken its event, as the outstanding one. -/
theorem Moves.atTurn (M : Moves S a rest reply others T) (h : T.AtTurn id ticket l) :
    S.AtTurn id ticket l ∨
      (∃ l₀, S.AtTurn id ticket (a :: l₀) ∧ l = (a.exec S.machine reply).next ++ l₀) ∨
      (∃ i, S.machine.get? id = some i ∧ i.owns ticket = true) ∧
        ∃ asked, Remains id ticket asked l := by
  obtain ⟨t, ht, after, ha⟩ := h
  rcases M.threads t ht with hn | ht
  · have onward : ∀ l₀, rest = l₀ ++ .finishTurn id ticket :: after →
        S.AtTurn id ticket (a :: l₀) := fun l₀ e => ⟨_, M.mover, after, by rw [e]; rfl⟩
    rcases List.append_eq_append_iff.mp (hn.symm.trans ha) with ⟨l₀, rfl, e⟩ | ⟨l₀, hn, e⟩
    · exact .inr (.inl ⟨l₀, onward l₀ e, rfl⟩)
    · rcases l₀ with - | ⟨b, l₀⟩
      · exact .inr (.inl ⟨[], onward [] e.symm, by rw [List.append_nil]; simpa using hn.symm⟩)
      · obtain ⟨rfl, -⟩ := List.cons.inj e
        have mem : .finishTurn id ticket ∈ (a.exec S.machine reply).next := by simp [hn]
        rcases (M.leadsTo mem).turnOnly rfl with
          ⟨k, u, n, rfl, he | ⟨w, he⟩⟩ | ⟨w, d, -, he⟩ | ⟨w, -, he⟩
        · cases he
          refine .inr (.inr ?_)
          rcases Machine.next_takeTurn S.machine reply id ticket n with
            e | ⟨i, x, queue, hi, ho, -, taken⟩
          · rw [e] at mem; cases mem
          · refine ⟨⟨i, hi, ho⟩, ?_⟩
            obtain ⟨before, e, none, R⟩ : ∃ before, _ = before ++ [.finishTurn id ticket] ∧
                .finishTurn id ticket ∉ before ∧ ∃ asked, Remains id ticket asked before := by
              rcases taken with ⟨-, asked, hasked, e⟩ | ⟨-, e⟩
              · exact ⟨asked, e, fun h => (by cases hasked _ h), asked, .of_asked hasked⟩
              · have own : ∀ b ∈ [Instr.readDetected ⟨id, ticket, n, x, "", [], []⟩],
                    b.belongs ⟨id, ticket, n, x, "", [], []⟩ := by
                  simpa [Instr.belongs] using Invocation.Same.refl _
                exact ⟨_, e, by simp, [], .of_own _ own⟩
            obtain rfl := ((List.append_cons_inj_of_notMem none List.not_mem_nil).mp
              (e.symm.trans hn)).1
            exact R
        · cases he
        · cases he
        · cases he
  · exact .inl ⟨t, M.still t ht, after, ha⟩

/-- What is left of a turn is as `Remains` says. -/
theorem Life.remains {h : List Section} (H : Life h S) :
    ∀ id ticket l, S.AtTurn id ticket l → ∃ asked, Remains id ticket asked l := by
  refine H.induct_steps (P := fun _ S => ∀ id ticket l, S.AtTurn id ticket l →
    ∃ asked, Remains id ticket asked l) ?_ ?_ ?_ ?_ ?_
  · rintro m _ id ticket l ⟨t, ht, -⟩
    cases ht
  · exact fun h m ts o ih id ticket l hl => ih id ticket l (hl.of_append (by simp [Thread.ofOp]))
  · exact fun h m ts n j _ _ _ ih id ticket l hl =>
      ih id ticket l (hl.of_append (by simp [Thread.ofJob]))
  · exact fun h m ts b ih => ih
  · intro h S T a rest reply others _ M ih id ticket l hl
    rcases M.atTurn hl with before | ⟨l₀, before, rfl⟩ | ⟨-, R⟩
    · exact ih id ticket l before
    · obtain ⟨asked, R⟩ := ih id ticket _ before
      obtain ⟨asked', R', -⟩ := R.next S.machine reply
      exact ⟨asked', R'⟩
    · exact R

/-- A turn that is not the outstanding one comes by nothing to carry out. -/
theorem Run.remains {h : List Section} {n : Nat} (r : Run S h T) (C : S.Coherent)
    (stale : S.machine.core.Stale n id ticket)
    (spent : ∀ l, S.AtTurn id ticket l → Remains id ticket [] l) :
    ∀ l, T.AtTurn id ticket l → Remains id ticket [] l := by
  induction r with
  | refl => exact spent
  | @snoc h l T U r s ih =>
    have stale' := C.stale_run r stale
    revert ih stale'
    refine s.cases_on (P := fun T _ U => (∀ l, T.AtTurn id ticket l → Remains id ticket [] l) →
      T.machine.core.Stale n id ticket → ∀ l, U.AtTurn id ticket l → Remains id ticket [] l)
      ?_ ?_ ?_ ?_
    · exact fun m ts o ih _ l hl => ih l (hl.of_append (by simp [Thread.ofOp]))
    · exact fun m ts n j _ _ ih _ l hl => ih l (hl.of_append (by simp [Thread.ofJob]))
    · exact fun m ts b _ ih _ => ih
    · rintro S T a rest reply others M ih ⟨-, s, hs, lost⟩ l hl
      have never : ¬ ∃ i, S.machine.get? id = some i ∧ i.owns ticket = true := by
        rintro ⟨i, hi, ho⟩
        obtain rfl : i.slot = s := Option.some.inj ((Machine.slot_of_get? hi).symm.trans hs)
        exact Bool.false_ne_true (lost.symm.trans ho)
      rcases M.atTurn hl with before | ⟨l₀, before, rfl⟩ | ⟨owned, -⟩
      · exact ih l before
      · obtain ⟨asked', R, owned⟩ := (ih _ before).next S.machine reply
        obtain rfl : asked' = [] := Classical.byContradiction fun h => never (owned rfl h)
        exact R
      · exact absurd owned never

/-- A turn is at work in one thread only. -/
theorem Turning.atTurn_unique {l' : List Instr} (U : S.Turning) (h : S.AtTurn id ticket l)
    (h' : S.AtTurn id ticket l') : l = l' := by
  have once := U.once
  rw [pending, List.filterMap_flatMap, List.nodup_flatMap] at once
  obtain ⟨t, ht, rest, ha⟩ := h
  obtain ⟨t', ht', rest', ha'⟩ := h'
  have holds : (id, ticket) ∈ t.agenda.filterMap Instr.turn? := by simp [ha, Instr.turn?]
  have holds' : (id, ticket) ∈ t'.agenda.filterMap Instr.turn? := by simp [ha', Instr.turn?]
  have : Std.Symm (Function.onFun List.Disjoint fun t : Thread =>
      t.agenda.filterMap Instr.turn?) := ⟨fun _ _ h _ hx hy => h hy hx⟩
  have same : t = t' := Classical.byContradiction fun hne =>
    (once.2.forall ht ht' hne) holds holds'
  subst same
  have once := once.1 t ht
  have held : ∀ {r : List Instr}, .finishTurn id ticket ∈ r →
      (id, ticket) ∈ r.filterMap Instr.turn? := fun h => List.mem_filterMap.mpr ⟨_, h, rfl⟩
  simp only [ha, List.filterMap_append, List.filterMap_cons, Instr.turn?, List.nodup_append,
    List.nodup_cons] at once
  have before : .finishTurn id ticket ∉ l := fun h =>
    once.2.2 _ (held h) _ List.mem_cons_self rfl
  have after : .finishTurn id ticket ∉ rest := fun h => once.2.1.1 (held h)
  exact ((List.append_cons_inj_of_notMem before after).mp (ha.symm.trans ha')).1

end

/-- What a turn has still to do is what is left of operations that its handler or a hook has
called, what it is carrying out for the script, and sections of its own. Once the turn is not the
outstanding one and has nothing left to carry out, it never is the outstanding one again and never
comes by anything to carry out; and, called operations apart, nothing that it does, up to its end,
changes the queue, the running flag or the outstanding turn of any instance, or what is shown of
an executing event, a named state, the store, or the jobs of the pool, and nothing is granted or
revoked. -/
theorem abandoned_inert {h : List Section} {S : System} {id ticket : Nat} {l : List Instr}
    {i : Instance} (H : Life h S) (working : S.AtTurn id ticket l)
    (hi : S.machine.get? id = some i) (lost : i.owns ticket = false) :
    (∃ asked, Remains id ticket asked l) ∧
    (Remains id ticket [] l → ∀ h' T, Run S h' T →
      (∃ i, T.machine.get? id = some i ∧ i.owns ticket = false) ∧
      ∀ l', T.AtTurn id ticket l' → ∃ called own v, l' = called ++ own ∧ Calls called ∧
        v.id = id ∧ v.ticket = ticket ∧ (∀ b ∈ own, Instr.belongs v b) ∧
        ∀ b ∈ own ++ [.finishTurn id ticket], ∀ reply,
          T.machine.Inert (b.exec T.machine reply).machine) := by
  refine ⟨H.remains id ticket l working, fun R h' T r => ?_⟩
  have C := H.coherent
  obtain ⟨n, turn, -⟩ : ∃ n, S.machine.core.IsTurn n id ticket ∧ S.machine.core.AtWork n := by
    obtain ⟨t, ht, after, ha⟩ := working
    have mem : .finishTurn id ticket ∈ S.pending := mem_pending.mpr ⟨t, ht, by simp [ha]⟩
    exact C.turn_atWork mem rfl
  have stale : S.machine.core.Stale n id ticket := ⟨turn, _, Machine.slot_of_get? hi, lost⟩
  have stale' := C.stale_run r stale
  refine ⟨?_, fun l' working' => ?_⟩
  · obtain ⟨-, s, hs, hno⟩ := stale'
    obtain ⟨i', hi', rfl⟩ := Machine.exists_get? hs
    exact ⟨i', hi', hno⟩
  · have spent : ∀ l₀, S.AtTurn id ticket l₀ → Remains id ticket [] l₀ := fun l₀ h₀ =>
      H.turning.atTurn_unique working h₀ ▸ R
    obtain ⟨called, own, v, e, hc, -, hv, ht, hown⟩ := r.remains C stale spent l' working'
    refine ⟨called, own, v, by simpa using e, hc, hv, ht, hown, fun b hb reply => ?_⟩
    rcases List.mem_append.mp hb with hb | hb
    · exact Machine.inert_exec _ reply (hown b hb)
    · rw [List.mem_singleton.mp hb]
      exact Machine.inert_finishTurn stale' reply

/-- A host in which a stop has given up a turn whose handler has asked for another state and is
stuck; the instance has been started again. -/
def stuck : List Section × System :=
  System.play 40 ⟨.bare true, []⟩
    [.call (.loadNew "a" 1
        (.answering [("state_entry", [.request (.setState "x"), .park false])])),
      .call (.run 1), .call (.stop "a" 5), .call (.start "a")]

/-- The same host once that handler has returned. -/
def unstuck : List Section × System := System.play 4 stuck.2 [.call .release, .go 1]

theorem abandoned_inert_unstuck : ∃ v o, v.requests = [.setState "x"] ∧
    unstuck.2.AtTurn 0 1 [.applyRequests v o] ∧
    (∃ i, unstuck.2.machine.get? 0 = some i ∧ i.owns 1 = false) ∧
    ∃ called own v', [Instr.applyRequests v o] = called ++ own ∧ Calls called ∧ v'.id = 0 ∧
      v'.ticket = 1 ∧ (∀ b ∈ own, Instr.belongs v' b) ∧
      ∀ b ∈ own ++ [.finishTurn 0 1], ∀ reply,
        unstuck.2.machine.Inert (b.exec unstuck.2.machine reply).machine := by
  obtain ⟨n, u, r, v, hid, ht, working⟩ : ∃ n u r v, v.id = 0 ∧ v.ticket = 1 ∧
      stuck.2.AtTurn 0 1 [.parked n u r, .act v []] :=
    ⟨_, _, _, _, rfl, rfl, _, List.mem_of_getElem? (i := 1) rfl, _, rfl⟩
  obtain ⟨w, o, hw, working'⟩ : ∃ w o, w.requests = [.setState "x"] ∧
      unstuck.2.AtTurn 0 1 [.applyRequests w o] :=
    ⟨_, _, rfl, _, List.mem_of_getElem? (i := 1) rfl, _, rfl⟩
  have own : ∀ b ∈ [Instr.parked n u r, .act v []], b.belongs v := by
    simpa [Instr.belongs] using Invocation.Same.refl v
  obtain ⟨lost, inert⟩ := (abandoned_inert (Life.play true 40 _) working rfl rfl).2
    (hid ▸ ht ▸ Remains.of_own v own) _ _ (Run.play 4 _ _)
  exact ⟨w, o, hw, working', lost, inert _ working'⟩

end System

end ScriptHost
