import Mathlib.Logic.Function.Basic
import LightNvm.Runs

/-! Threads that share a memory and one lock, and the surroundings that change the memory
between their steps. An invariant of a run is given as a part about the memory, a part about
each thread and the memory, which the steps of the other threads do not disturb, and what holds
of the memory while the lock is free. -/

namespace LockTeam

/-- What a thread in local state `L` does: it takes the lock, gives it back, or takes one step `A`
on its state and the memory. `E` are the steps of the surroundings. `inside` is where a thread has
the lock. -/
structure Prog (T L G A E : Type*) where
  lock : L → Option L
  unlock : L → Option L
  can : T → A → G → L → Prop
  act : T → A → G → L → G × L
  canEnv : E → G → Prop
  env : E → G → G
  inside : L → Prop
  lock_inside : ∀ {l l'}, lock l = some l' → inside l'
  unlock_inside : ∀ {l l'}, unlock l = some l' → inside l ∧ ¬ inside l'
  act_inside : ∀ {t a g l}, can t a g l → (inside (act t a g l).2 ↔ inside l)

structure Team (T L G : Type*) where
  lock : Option T
  loc : T → L
  mem : G

inductive Event (T A E : Type*) where
  | lock (t : T)
  | unlock (t : T)
  | act (t : T) (a : A)
  | env (e : E)

variable {T L G A E : Type*} (P : Prog T L G A E)

/-- The same program with fewer steps of its threads. -/
def Prog.restrict (Q : T → A → G → Prop) : Prog T L G A E :=
  { P with
    can := fun t a g l => P.can t a g l ∧ Q t a g
    act_inside := fun h => P.act_inside h.1 }

/-- The lock is waited for. Nothing keeps a thread from giving back a lock that it has not. -/
def Enabled (s : Team T L G) : Event T A E → Prop
  | .lock t => s.lock = none ∧ (P.lock (s.loc t)).isSome
  | .unlock t => (P.unlock (s.loc t)).isSome
  | .act t a => P.can t a s.mem (s.loc t)
  | .env e => P.canEnv e s.mem

def step [DecidableEq T] (s : Team T L G) : Event T A E → Team T L G
  | .lock t =>
    { s with lock := some t, loc := Function.update s.loc t ((P.lock (s.loc t)).getD (s.loc t)) }
  | .unlock t =>
    { s with lock := none, loc := Function.update s.loc t ((P.unlock (s.loc t)).getD (s.loc t)) }
  | .act t a =>
    { s with
      loc := Function.update s.loc t (P.act t a s.mem (s.loc t)).2
      mem := (P.act t a s.mem (s.loc t)).1 }
  | .env e => { s with mem := P.env e s.mem }

/-- The thread that has the lock is the one that is inside. -/
def Exclusive (s : Team T L G) : Prop := ∀ t, s.lock = some t ↔ P.inside (s.loc t)

section

variable {P} {s : Team T L G}

theorem Exclusive.eq (h : Exclusive P s) {t u : T} (ht : P.inside (s.loc t))
    (hu : P.inside (s.loc u)) : t = u :=
  Option.some.inj (((h t).mpr ht).symm.trans ((h u).mpr hu))

variable [DecidableEq T]

theorem Exclusive.step (h : Exclusive P s) {e : Event T A E} (he : Enabled P s e) :
    Exclusive P (step P s e) := by
  cases e with
  | lock t =>
    obtain ⟨hfree, hsome⟩ := he
    obtain ⟨l', hl'⟩ := Option.isSome_iff_exists.mp hsome
    intro u
    by_cases hu : u = t
    · subst hu
      simpa [LockTeam.step, hl'] using P.lock_inside hl'
    · have hout : ¬ P.inside (s.loc u) := fun hin => by simpa [hfree] using (h u).mpr hin
      simp [LockTeam.step, Function.update_of_ne hu, hout, Ne.symm hu]
  | unlock t =>
    obtain ⟨l', hl'⟩ := Option.isSome_iff_exists.mp he
    obtain ⟨hin, hout⟩ := P.unlock_inside hl'
    intro u
    by_cases hu : u = t
    · subst hu
      simpa [LockTeam.step, hl'] using hout
    · have hne : ¬ P.inside (s.loc u) := fun hu' => hu (h.eq hu' hin)
      simp [LockTeam.step, Function.update_of_ne hu, hne]
  | act t a =>
    intro u
    by_cases hu : u = t
    · subst hu
      simpa [LockTeam.step, P.act_inside he] using h u
    · simpa [LockTeam.step, Function.update_of_ne hu] using h u
  | env e => exact h

/-- `I` of the memory and `J` of each thread are kept by the steps of the thread itself, and `J`
by those of every other thread. Two threads are never both inside. `R` is what a thread finds
when it takes the lock, and what it has to leave. -/
structure Kept (P : Prog T L G A E) (I R : G → Prop) (J : T → L → G → Prop) : Prop where
  lock : ∀ {t l l' g}, I g → R g → J t l g → P.lock l = some l' → J t l' g
  unlock : ∀ {t l l' g}, I g → J t l g → P.unlock l = some l' → R g ∧ J t l' g
  own : ∀ {t a g l}, I g → J t l g → P.can t a g l →
    I (P.act t a g l).1 ∧ J t (P.act t a g l).2 (P.act t a g l).1
  other : ∀ {t u a g l m}, t ≠ u → ¬ (P.inside l ∧ P.inside m) → I g → J t l g → J u m g →
    P.can t a g l → J u m (P.act t a g l).1
  outside : ∀ {t a g l}, ¬ P.inside l → I g → J t l g → R g → P.can t a g l → R (P.act t a g l).1
  env : ∀ {e g}, I g → P.canEnv e g →
    I (P.env e g) ∧ (R g → R (P.env e g)) ∧ ∀ {t l}, J t l g → J t l (P.env e g)

/-- An invariant of the whole team. -/
structure Inv (P : Prog T L G A E) (I R : G → Prop) (J : T → L → G → Prop)
    (s : Team T L G) : Prop where
  exclusive : Exclusive P s
  mem : I s.mem
  free : s.lock = none → R s.mem
  loc : ∀ t, J t (s.loc t) s.mem

variable {I R : G → Prop} {J : T → L → G → Prop}

theorem Inv.loc_step (k : Kept P I R J) (h : Inv P I R J s) {e : Event T A E} (he : Enabled P s e)
    (u : T) : J u ((step P s e).loc u) (step P s e).mem := by
  cases e with
  | lock t =>
    obtain ⟨hfree, hsome⟩ := he
    obtain ⟨l', hl'⟩ := Option.isSome_iff_exists.mp hsome
    by_cases hu : u = t
    · subst hu
      simpa [LockTeam.step, hl'] using k.lock h.mem (h.free hfree) (h.loc u) hl'
    · simpa [LockTeam.step, Function.update_of_ne hu] using h.loc u
  | unlock t =>
    obtain ⟨l', hl'⟩ := Option.isSome_iff_exists.mp he
    by_cases hu : u = t
    · subst hu
      simpa [LockTeam.step, hl'] using (k.unlock h.mem (h.loc u) hl').2
    · simpa [LockTeam.step, Function.update_of_ne hu] using h.loc u
  | act t a =>
    by_cases hu : u = t
    · subst hu
      simpa [LockTeam.step] using (k.own h.mem (h.loc u) he).2
    · have hin : ¬ (P.inside (s.loc t) ∧ P.inside (s.loc u)) :=
        fun hin => hu (h.exclusive.eq hin.2 hin.1)
      simpa [LockTeam.step, Function.update_of_ne hu] using
        k.other (Ne.symm hu) hin h.mem (h.loc t) (h.loc u) he
  | env e => exact (k.env h.mem he).2.2 (h.loc u)

theorem Inv.free_step (k : Kept P I R J) (h : Inv P I R J s) {e : Event T A E}
    (he : Enabled P s e) (hfree : (step P s e).lock = none) : R (step P s e).mem := by
  cases e with
  | lock t => cases hfree
  | unlock t =>
    obtain ⟨l', hl'⟩ := Option.isSome_iff_exists.mp he
    exact (k.unlock h.mem (h.loc t) hl').1
  | act t a =>
    have hout : ¬ P.inside (s.loc t) := fun hin => by
      have hlock := (h.exclusive t).mpr hin
      rw [show s.lock = none from hfree] at hlock
      cases hlock
    exact k.outside hout h.mem (h.loc t) (h.free hfree) he
  | env e => exact (k.env h.mem he).2.1 (h.free hfree)

theorem Inv.step (k : Kept P I R J) (h : Inv P I R J s) {e : Event T A E} (he : Enabled P s e) :
    Inv P I R J (step P s e) := by
  refine ⟨h.exclusive.step he, ?_, h.free_step k he, h.loc_step k he⟩
  cases e with
  | lock t => exact h.mem
  | unlock t => exact h.mem
  | act t a => exact (k.own h.mem (h.loc t) he).1
  | env e => exact (k.env h.mem he).1

theorem Inv.run (k : Kept P I R J) (h : Inv P I R J s) {es : List (Event T A E)}
    (hes : Runs.Along (LockTeam.step P) (Enabled P) s es) :
    Inv P I R J (Runs.run (LockTeam.step P) s es) :=
  Runs.run_invariant (fun _ _ hi he => hi.step k he) h hes

end

end LockTeam
