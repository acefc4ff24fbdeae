import ScriptHost.Proofs.Engine.Requests
import ScriptHost.Proofs.Engine.Resting

/-!
# A thread's own sections

A handler and a hook may call operations, which the thread that is at them
carries out before it goes on, other turns included. What the thread does of its
own is told apart from these by `Pursues`: a run, with the sections that the
thread has done of its own, what is left of operations that were called
meanwhile, and what is then left of its own.
-/

namespace ScriptHost

/-- Sections of an operation that is called by a handler or a hook. -/
def Instr.calls : Instr → Bool
  | .noteBegin _ | .op _ | .noteReply => true
  | _ => false

/-- What is not called is a thread's own. -/
theorem Instr.dropWhile_own {l : List Instr} (h : ∀ b ∈ l, b.calls = false) :
    l.dropWhile calls = l := by
  cases l with
  | nil => rfl
  | cons b l =>
    exact List.dropWhile_cons_of_neg (Bool.eq_false_iff.mp (h b List.mem_cons_self))

theorem Instr.dropWhile_nested (ops : List Op) {l : List Instr} (h : ∀ b ∈ l, b.calls = false) :
    (nested ops ++ l).dropWhile calls = l := by
  have called : ∀ b ∈ nested ops, b.calls = true := fun b hb => by
    obtain ⟨o, -, hb⟩ := List.mem_flatMap.mp hb
    simp only [List.mem_cons, List.not_mem_nil, or_false] at hb
    rcases hb with rfl | rfl | rfl <;> rfl
  rw [List.dropWhile_append_of_pos called, dropWhile_own h]

/-- What a thread has pursued: the sections it did of its own, and where that has led. -/
structure Pursuit where
  own : List Section
  called : List Instr
  left : List Instr
  machine : Machine
  reply : Reply

/-- A thread pursues what is left alone, at most `fuel` sections. -/
def Pursuit.go : Nat → Pursuit → Pursuit
  | 0, p => p
  | fuel + 1, p =>
    match p.called, p.left with
    | [], [] => p
    | [], a :: left =>
      if a.blocked p.machine then p
      else
        let d := a.exec p.machine p.reply
        go fuel ⟨p.own ++ [⟨p.machine, a⟩], d.next.takeWhile Instr.calls,
          d.next.dropWhile Instr.calls ++ left, d.machine, d.reply⟩
    | a :: called, left =>
      if a.blocked p.machine then p
      else
        let d := a.exec p.machine p.reply
        go fuel ⟨p.own, d.next ++ called, left, d.machine, d.reply⟩

namespace System

/-- A run in which the thread `k`, which is to do `first` and then `rest`, pursues `first`: `own` is
what it has done of its own, `called` what is left of operations that have been called meanwhile,
and `left` what it has then still to do of its own. -/
inductive Pursues (k : Nat) (first rest : List Instr) (S : System) :
    List Section → List Instr → List Instr → System → Prop where
  | refl {r : Reply} : S.threads[k]? = some ⟨first ++ rest, r⟩ →
      Pursues k first rest S [] [] first S
  | other {own h : List Section} {called left : List Instr} {T U : System} :
      Pursues k first rest S own called left T → T.Step h U → U.threads[k]? = T.threads[k]? →
      Pursues k first rest S own called left U
  | called {own : List Section} {a : Instr} {called left : List Instr} {T : System} {t t' : Thread}
      {m : Machine} : Pursues k first rest S own (a :: called) left T →
      T.threads[k]? = some t → t.step? T.machine = some (m, t') →
      Pursues k first rest S own ((a.exec T.machine t.reply).next ++ called) left
        ⟨m, T.threads.set k t'⟩
  | own {own : List Section} {a : Instr} {left : List Instr} {T : System} {t t' : Thread}
      {m : Machine} : Pursues k first rest S own [] (a :: left) T →
      T.threads[k]? = some t → t.step? T.machine = some (m, t') →
      Pursues k first rest S (own ++ [⟨T.machine, a⟩])
        ((a.exec T.machine t.reply).next.takeWhile Instr.calls)
        ((a.exec T.machine t.reply).next.dropWhile Instr.calls ++ left) ⟨m, T.threads.set k t'⟩

namespace Pursues

variable {k : Nat} {first rest called left : List Instr} {S T U : System} {own g h : List Section}

theorem agenda (F : Pursues k first rest S own called left T) :
    ∃ r, T.threads[k]? = some ⟨called ++ (left ++ rest), r⟩ := by
  have set : ∀ {T : System} {t t' : Thread} {a : Instr} {l : List Instr} {m : Machine} {r : Reply},
      T.threads[k]? = some ⟨a :: l, r⟩ → T.threads[k]? = some t →
      t.step? T.machine = some (m, t') →
      ∃ r, (T.threads.set k t')[k]? = some ⟨(a.exec T.machine t.reply).next ++ l, r⟩ := by
    intro T t t' a l m r hr ht hs
    obtain ⟨b, tail, hb, -, -, rfl⟩ := Thread.step?_eq_some hs
    obtain rfl : t = _ := Option.some.inj (ht.symm.trans hr)
    obtain ⟨rfl, rfl⟩ := List.cons.inj hb
    exact ⟨_, List.getElem?_set_self (List.getElem?_eq_some_iff.mp hr).1⟩
  induction F with
  | refl h => exact ⟨_, h⟩
  | other _ _ hU ih =>
    obtain ⟨r, hr⟩ := ih
    exact ⟨r, hU.trans hr⟩
  | called _ ht hs ih =>
    obtain ⟨r, hr⟩ := ih
    obtain ⟨r, hr⟩ := set hr ht hs
    exact ⟨r, by simpa only [List.append_eq, List.append_assoc] using hr⟩
  | own _ ht hs ih =>
    obtain ⟨r, hr⟩ := ih
    obtain ⟨r, hr⟩ := set hr ht hs
    refine ⟨r, ?_⟩
    rw [List.append_assoc, ← List.append_assoc, List.takeWhile_append_dropWhile]
    simpa only [List.append_eq, List.nil_append] using hr

/-- Whatever happens next, the run goes on being told, until the thread has nothing left to do of its
own. -/
theorem step (F : Pursues k first rest S own called left T) (s : T.Step h U)
    (more : called ++ left ≠ []) :
    ∃ own' called' left', Pursues k first rest S (own ++ own') called' left' U := by
  have stays : U.threads[k]? = T.threads[k]? →
      ∃ own' called' left', Pursues k first rest S (own ++ own') called' left' U := fun e =>
    ⟨[], _, _, by rw [List.append_nil]; exact .other F s e⟩
  obtain ⟨r, hr⟩ := F.agenda
  have hlt := (List.getElem?_eq_some_iff.mp hr).1
  cases s with
  | call o => exact stays (List.getElem?_append_left hlt)
  | claim hj hq => exact stays (List.getElem?_append_left hlt)
  | refuse b hb => exact stays rfl
  | @move m m' ts j t t' a ht ha hs =>
    by_cases hjk : j = k
    · subst hjk
      rcases called with - | ⟨b, called⟩
      · rcases left with - | ⟨b, left⟩
        · exact absurd rfl more
        · exact ⟨_, _, _, .own F ht hs⟩
      · exact ⟨[], _, _, by rw [List.append_nil]; exact .called F ht hs⟩
    · exact stays (List.getElem?_set_ne hjk)

/-- So every run of a system is told, until the thread has nothing left to do of its own. -/
theorem of_run (r : S.Run g T) {r₀ : Reply} (h : S.threads[k]? = some ⟨first ++ rest, r₀⟩) :
    ∃ own called left U g₁ g₂, g = g₁ ++ g₂ ∧ S.Run g₁ U ∧ U.Run g₂ T ∧
      Pursues k first rest S own called left U ∧ (called ++ left = [] ∨ U = T) := by
  induction r with
  | refl => exact ⟨_, _, _, _, [], [], rfl, .refl, .refl, .refl h, .inr rfl⟩
  | @snoc g g' V W run s ih =>
    obtain ⟨own, called, left, U, g₁, g₂, rfl, r₁, r₂, F, e⟩ := ih
    by_cases ended : called ++ left = []
    · exact ⟨_, _, _, _, g₁, g₂ ++ g', List.append_assoc _ _ _, r₁, .snoc r₂ s, F, .inl ended⟩
    · obtain rfl : U = V := e.resolve_left ended
      obtain ⟨own', called', left', F'⟩ := F.step s ended
      exact ⟨_, _, _, _, _, [], (List.append_nil _).symm, .snoc run s, .refl, F', .inr rfl⟩

/-- The thread goes on alone. -/
theorem alone (fuel : Nat) {p : Pursuit} {ts : List Thread}
    (F : Pursues k first rest S p.own p.called p.left ⟨p.machine, ts⟩)
    (hk : ts[k]? = some ⟨p.called ++ (p.left ++ rest), p.reply⟩) :
    ∃ us, Pursues k first rest S (p.go fuel).own (p.go fuel).called (p.go fuel).left
        ⟨(p.go fuel).machine, us⟩ ∧
      us[k]? = some ⟨(p.go fuel).called ++ ((p.go fuel).left ++ rest), (p.go fuel).reply⟩ := by
  induction fuel generalizing p ts with
  | zero => exact ⟨ts, F, hk⟩
  | succ fuel ih =>
    obtain ⟨own, called, left, m, r⟩ := p
    have hlt := (List.getElem?_eq_some_iff.mp hk).1
    have moves : ∀ {a : Instr} {l : List Instr}, a.blocked m = false →
        Thread.step? m ⟨a :: l, r⟩ =
          some ((a.exec m r).machine, ⟨(a.exec m r).next ++ l, (a.exec m r).reply⟩) :=
      fun h => by simp [Thread.step?, h]
    rcases called with - | ⟨a, called⟩
    · rcases left with - | ⟨a, left⟩
      · exact ⟨ts, F, hk⟩
      · simp only [Pursuit.go]
        split
        · exact ⟨ts, F, hk⟩
        · next free =>
          refine ih (.own F hk (moves (Bool.eq_false_iff.mpr free))) ?_
          rw [List.getElem?_set_self hlt, List.append_assoc, ← List.append_assoc,
            List.takeWhile_append_dropWhile]
          rfl
    · simp only [Pursuit.go]
      split
      · exact ⟨ts, F, hk⟩
      · next free =>
        refine ih (.called F hk (moves (Bool.eq_false_iff.mpr free))) ?_
        rw [List.getElem?_set_self hlt, List.append_assoc]
        rfl

end Pursues

end System

end ScriptHost
