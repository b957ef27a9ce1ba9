import Mathlib.Algebra.Order.Ring.Nat
import Mathlib.Data.List.Count
import WarheadDiscord.Lib.Outcome

/-!
# Monitors

Threads that share a lock and a condition variable.  Each of them is at rest, waits for the lock,
holds it, or sleeps on the condition, and what it does next is a section of the code.  A thread
that is woken waits for the lock again.

* `Monitor.call`, `enter`, `goOn`, `leave`, `wait`, `wake`,
  `notifyOne`, `wakeAll`: what can happen to the
  threads.
* `Monitor.Owned`: the thread that owns the lock is the one that holds it.  All of these keep it,
  so that **no two threads hold the lock** (`Owned.unique`).
* `Owned.goesOn`: who can go on.
* `countP_set_add`, `countP_woken`, `sum_map_set`, `sum_map_woken`: how the number of threads of a
  kind changes, and a sum over the threads.
-/

namespace WarheadDiscord.Lib

/-- Where a thread is. -/
inductive Phase (S : Type*) where
  | idle
  | acquire (next : S)
  | locked (current : S)
  | asleep (resume : S)
  deriving DecidableEq, Repr

namespace Phase

variable {S : Type*}

def isLocked : Phase S → Bool
  | .locked _ => true
  | _ => false

def isAsleep : Phase S → Bool
  | .asleep _ => true
  | _ => false

/-- At rest, or asleep. -/
def isQuiet : Phase S → Bool
  | .idle | .asleep _ => true
  | _ => false

def woken : Phase S → Phase S
  | .asleep resume => .acquire resume
  | phase => phase

end Phase

structure Monitor (S : Type*) where
  owner : Option Nat
  threads : List (Phase S)

namespace Monitor

variable {S : Type*}

/-- `n` threads at rest. -/
def new (n : Nat) : Monitor S := ⟨none, List.replicate n .idle⟩

/-- A thread calls a function that begins with the lock. -/
def call (m : Monitor S) (i : Nat) (next : S) : Option (Monitor S) :=
  match m.threads[i]? with
  | some .idle => some { m with threads := m.threads.set i (.acquire next) }
  | _ => none

/-- A thread gets the lock. -/
def enter (m : Monitor S) (i : Nat) : Option (Monitor S) :=
  match m.owner, m.threads[i]? with
  | none, some (.acquire next) => some ⟨some i, m.threads.set i (.locked next)⟩
  | _, _ => none

/-- The thread with the lock comes to another section. -/
def goOn (m : Monitor S) (i : Nat) (next : S) : Monitor S :=
  { m with threads := m.threads.set i (.locked next) }

/-- It gives the lock back, and is done. -/
def leave (m : Monitor S) (i : Nat) : Monitor S := ⟨none, m.threads.set i .idle⟩

/-- It gives the lock back, and sleeps. -/
def wait (m : Monitor S) (i : Nat) (resume : S) : Monitor S :=
  ⟨none, m.threads.set i (.asleep resume)⟩

/-- A thread that sleeps is woken. -/
def wake (m : Monitor S) (j : Nat) : Option (Monitor S) :=
  match m.threads[j]? with
  | some (.asleep resume) => some { m with threads := m.threads.set j (.acquire resume) }
  | _ => none

/-- One of those that sleep is woken, or nobody if nobody does. -/
def notifyOne (m : Monitor S) : Option Nat → Option (Monitor S)
  | some j => m.wake j
  | none => if m.threads.any Phase.isAsleep then none else some m

/-- All of them are woken. -/
def wakeAll (m : Monitor S) : Monitor S := { m with threads := m.threads.map Phase.woken }

/-! ### The owner of the lock -/

/-- The thread that owns the lock is the one that holds it. -/
def Owned (m : Monitor S) : Prop :=
  ∀ i, (m.threads[i]?.any Phase.isLocked = true) ↔ m.owner = some i

section Owner

variable {m n : Monitor S} {i j : Nat} {a b : Phase S}

theorem owned_new (n : Nat) : (new n : Monitor S).Owned := by
  intro i
  simp only [new, List.getElem?_replicate]
  split <;> simp [Phase.isLocked]

theorem Owned.owner_eq (h : m.Owned) {x : S} (hi : m.threads[i]? = some (.locked x)) :
    m.owner = some i := by
  refine (h i).mp ?_
  rw [hi]
  rfl

/-- **No two threads hold the lock.** -/
theorem Owned.unique (h : m.Owned) {x y : S} (hi : m.threads[i]? = some (.locked x))
    (hj : m.threads[j]? = some (.locked y)) : i = j :=
  Option.some.inj ((h.owner_eq hi).symm.trans (h.owner_eq hj))

theorem Owned.set (h : m.Owned) (hi : m.threads[i]? = some a) (owner : Option Nat)
    (hself : b.isLocked = true ↔ owner = some i)
    (hothers : ∀ j, j ≠ i → (m.owner = some j ↔ owner = some j)) :
    (⟨owner, m.threads.set i b⟩ : Monitor S).Owned := by
  intro j
  have hlt : i < m.threads.length := (List.getElem?_eq_some_iff.mp hi).1
  by_cases hij : j = i
  · subst hij
    simp only [List.getElem?_set_self hlt, Option.any_some]
    exact hself
  · dsimp only
    rw [List.getElem?_set_ne (Ne.symm hij), h j]
    exact hothers j hij

theorem Owned.keep (h : m.Owned) (hi : m.threads[i]? = some a) (ha : a.isLocked = false)
    (hb : b.isLocked = false) : (⟨m.owner, m.threads.set i b⟩ : Monitor S).Owned := by
  refine h.set hi m.owner ⟨fun hx => ?_, fun hx => ?_⟩ fun _ _ => Iff.rfl
  · rw [hb] at hx
    cases hx
  · have hl := (h i).mpr hx
    rw [hi, Option.any_some, ha] at hl
    cases hl

theorem Owned.call (h : m.Owned) {next : S} (hc : m.call i next = some n) :
    n.Owned ∧ m.threads[i]? = some .idle ∧ n.threads = m.threads.set i (.acquire next) := by
  rw [Monitor.call] at hc
  split at hc
  · rename_i hi
    cases hc
    exact ⟨h.keep hi rfl rfl, hi, rfl⟩
  · cases hc

theorem Owned.enter (h : m.Owned) (he : m.enter i = some n) : n.Owned ∧
    ∃ next, m.threads[i]? = some (.acquire next) ∧ n.threads = m.threads.set i (.locked next) := by
  rw [Monitor.enter] at he
  split at he
  · rename_i next hown hi
    cases he
    refine ⟨h.set hi (some i) ⟨fun _ => rfl, fun _ => rfl⟩ fun j hj => ?_, next, hi, rfl⟩
    rw [hown]
    exact ⟨fun hx => (by cases hx), fun hx => absurd (Option.some.inj hx).symm hj⟩
  · cases he

theorem Owned.goOn (h : m.Owned) {x : S} (hi : m.threads[i]? = some (.locked x)) (next : S) :
    (m.goOn i next).Owned :=
  h.set hi m.owner ⟨fun _ => h.owner_eq hi, fun _ => rfl⟩ fun _ _ => Iff.rfl

theorem Owned.release (h : m.Owned) {x : S} (hi : m.threads[i]? = some (.locked x))
    (hb : b.isLocked = false) : (⟨none, m.threads.set i b⟩ : Monitor S).Owned := by
  refine h.set hi none ⟨fun hx => ?_, fun hx => by cases hx⟩ fun j hj => ⟨fun hx => ?_, ?_⟩
  · rw [hb] at hx
    cases hx
  · exact absurd (Option.some.inj ((h.owner_eq hi).symm.trans hx)).symm hj
  · intro hx
    cases hx

theorem Owned.wake (h : m.Owned) (hw : m.wake j = some n) : n.Owned ∧ n.owner = m.owner ∧
    ∃ r, m.threads[j]? = some (.asleep r) ∧ n.threads = m.threads.set j (.acquire r) := by
  rw [Monitor.wake] at hw
  split at hw
  · rename_i r hj
    cases hw
    exact ⟨h.keep hj rfl rfl, rfl, r, hj, rfl⟩
  · cases hw

theorem woken_isLocked (a : Phase S) : a.woken.isLocked = a.isLocked := by
  cases a <;> rfl

theorem Owned.wakeAll (h : m.Owned) : m.wakeAll.Owned := by
  intro i
  change _ ↔ m.owner = some i
  rw [← h i, Monitor.wakeAll, List.getElem?_map]
  cases m.threads[i]? with
  | none => simp
  | some a => simp [woken_isLocked]

/-- **Who can go on.**  If it is not the thread with the lock, it is one that can get it. -/
theorem Owned.goesOn (h : m.Owned) (hbusy : ∃ a ∈ m.threads, a.isQuiet = false) :
    (∃ (i : Nat) (x : S), m.threads[i]? = some (.locked x)) ∨
      m.owner = none ∧ ∃ (i : Nat) (next : S), m.threads[i]? = some (.acquire next) := by
  obtain ⟨a, ha, hquiet⟩ := hbusy
  obtain ⟨i, hi⟩ := List.getElem?_of_mem ha
  cases a with
  | idle => cases hquiet
  | asleep resume => cases hquiet
  | locked x => exact .inl ⟨i, x, hi⟩
  | acquire next =>
    cases hown : m.owner with
    | none => exact .inr ⟨rfl, i, next, hi⟩
    | some j =>
      have hj := (h j).mpr hown
      rw [Option.any_eq_true] at hj
      obtain ⟨b, hb, hlocked⟩ := hj
      cases b with
      | locked x => exact .inl ⟨j, x, hb⟩
      | _ => cases hlocked

end Owner

/-! ### Counting threads -/

section Counts

variable {i j : Nat} {a b : Phase S} {threads : List (Phase S)}

theorem countP_set_add (p : Phase S → Bool) (hi : threads[i]? = some a) :
    (threads.set i b).countP p + (p a).toNat = threads.countP p + (p b).toNat := by
  obtain ⟨hlt, ha⟩ := List.getElem?_eq_some_iff.mp hi
  have hif : ∀ c, (if p c = true then 1 else 0) = (p c).toNat := fun c => by cases p c <;> rfl
  have hle := List.boole_getElem_le_countP (p := p) hlt
  rw [ha, hif] at hle
  rw [List.countP_set hlt, ha, hif, hif]
  omega

theorem sum_map_set (f : Phase S → Nat) : ∀ {threads : List (Phase S)} {i : Nat},
    threads[i]? = some a → ((threads.set i b).map f).sum + f a = (threads.map f).sum + f b := by
  intro threads
  induction threads with
  | nil => intro i hi; cases hi
  | cons c rest ih =>
    intro i hi
    cases i with
    | zero =>
      cases hi
      simp only [List.set_cons_zero, List.map_cons, List.sum_cons]
      omega
    | succ i =>
      have hrest := ih hi
      simp only [List.set_cons_succ, List.map_cons, List.sum_cons]
      omega

theorem sum_map_woken (f : Phase S → Nat) (bound : Nat) : ∀ {threads : List (Phase S)},
    (∀ a ∈ threads, f a.woken ≤ f a + bound) →
      ((threads.map Phase.woken).map f).sum ≤ (threads.map f).sum + bound * threads.length := by
  intro threads
  induction threads with
  | nil => intro _; simp
  | cons c rest ih =>
    intro h
    have hrest := ih fun a ha => h a (List.mem_cons_of_mem _ ha)
    have hc := h c List.mem_cons_self
    simp only [List.map_cons, List.sum_cons, List.length_cons, Nat.mul_succ]
    omega

theorem countP_woken (threads : List (Phase S)) :
    (threads.map Phase.woken).countP Phase.isAsleep = 0 := by
  rw [List.countP_eq_zero]
  intro a ha
  obtain ⟨b, -, rfl⟩ := List.mem_map.mp ha
  cases b <;> simp [Phase.woken, Phase.isAsleep]

end Counts

end Monitor

end WarheadDiscord.Lib
