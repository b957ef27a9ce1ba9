import Mathlib.Data.List.Nodup
import WarheadDiscord.Lib.Machine

/-!
# `AsyncCallbackProcessor`

A pass over the callbacks works on a vector that it has moved out of the member, so that a
callback may add others, or start a pass of its own, while it runs.  A run is a sequence of
such calls and of answers of `InvokeIfReady`, and the passes that are under way are a stack.

* `State.step`: one call, or one answer.
* `State.Sound`: every callback is finished, stored or in one pass, and what the log of the
  invocations says about them.  `step_sound`: every step keeps it.
* `callbacks_kept`: **nothing is lost and nothing repeated**, in every run.
-/

namespace WarheadDiscord.AsyncCallbackProcessor

open Lib

variable {T : Type*}

/-- An element of a vector of callbacks, with the number of the `AddCallback` it came by. -/
structure Callback (T : Type*) where
  id : Nat
  query : T
  deriving DecidableEq, Repr

/-- `InvokeIfReady` is called, and answers. -/
inductive Event (T : Type*) where
  | invoked (pass : Nat) (callback : Callback T)
  | answered (callback : Callback T) (ready : Bool)
  deriving DecidableEq, Repr

/-- One execution of `std::remove_if` on `updateCallbacks`, with a callback running. -/
structure Pass (T : Type*) where
  id : Nat
  /-- The elements that are moved to the front. -/
  kept : List (Callback T)
  running : Callback T
  waiting : List (Callback T)
  deriving DecidableEq, Repr

/-- The processor, the passes under way with the innermost first, and the history. -/
structure State (T : Type*) where
  callbacks : List (Callback T) := []
  passes : List (Pass T) := []
  added : List (Callback T) := []
  begun : Nat := 0
  log : List (Event T) := []
  deriving DecidableEq, Repr

/-- What the program, or the callback that runs, does next. -/
inductive Act (T : Type*) where
  | addCallback (query : T)
  | processReadyCallbacks
  | answer (ready : Bool)
  deriving DecidableEq, Repr

/-- No callback runs that could answer. -/
inductive NothingRuns where
  | mk

namespace State

def addCallback (s : State T) (query : T) : State T :=
  { s with
    callbacks := s.callbacks ++ [⟨s.added.length, query⟩]
    added := s.added ++ [⟨s.added.length, query⟩] }

/-- `ProcessReadyCallbacks`, up to the first invocation. -/
def processReadyCallbacks (s : State T) : State T :=
  match s.callbacks with
  | [] => s
  | first :: rest =>
    { s with
      callbacks := []
      passes := ⟨s.begun, [], first, rest⟩ :: s.passes
      begun := s.begun + 1
      log := s.log ++ [Event.invoked s.begun first] }

/-- The running callback answers, and its pass goes on to the next invocation or to the end
of `ProcessReadyCallbacks`. -/
def answer (s : State T) (ready : Bool) : Except NothingRuns (State T) :=
  match s.passes with
  | [] => .error .mk
  | p :: outer =>
    let kept := if ready then p.kept else p.kept ++ [p.running]
    let log := s.log ++ [Event.answered p.running ready]
    match p.waiting with
    | next :: rest =>
      .ok { s with
        passes := ⟨p.id, kept, next, rest⟩ :: outer
        log := log ++ [Event.invoked p.id next] }
    | [] =>
      .ok { s with
        callbacks := s.callbacks ++ kept
        passes := outer
        log := log }

def step (s : State T) : Act T → Except NothingRuns (State T)
  | .addCallback query => .ok (s.addCallback query)
  | .processReadyCallbacks => .ok s.processReadyCallbacks
  | .answer ready => s.answer ready

end State

/-! ### The history -/

/-- The callback of an answer `true`. -/
def Event.finished? : Event T → Option (Callback T)
  | .answered callback true => some callback
  | _ => none

/-- The pass and the callback of an invocation. -/
def Event.invoked? : Event T → Option (Nat × Callback T)
  | .invoked pass callback => some (pass, callback)
  | _ => none

def finished (log : List (Event T)) : List (Callback T) := log.filterMap Event.finished?

def invocations (log : List (Event T)) : List (Nat × Callback T) := log.filterMap Event.invoked?

/-- No callback is invoked after its answer `true`. -/
def NeverAgain (log : List (Event T)) : Prop :=
  log.Pairwise fun e e' => ∀ callback pass, e = .answered callback true →
    e' ≠ .invoked pass callback

def Act.query? : Act T → Option T
  | .addCallback query => some query
  | _ => none

/-- The elements of the vector of a pass that are not removed. -/
def Pass.held (p : Pass T) : List (Callback T) := p.kept ++ p.running :: p.waiting

namespace State

/-- The callbacks in the vectors of the passes. -/
def inPasses (s : State T) : List (Callback T) := s.passes.flatMap Pass.held

/-- The invariant of a run. -/
structure Sound (s : State T) : Prop where
  ids : s.added.map Callback.id = List.range s.added.length
  conserved : s.added.Perm (finished s.log ++ s.callbacks ++ s.inPasses)
  passIds : (s.passes.map Pass.id).Nodup
  begun : ∀ p ∈ s.passes, p.id < s.begun
  begunLog : ∀ i ∈ invocations s.log, i.1 < s.begun
  /-- What waits in a pass has not been invoked in it. -/
  waiting : ∀ p ∈ s.passes, ∀ callback ∈ p.waiting, (p.id, callback) ∉ invocations s.log
  once : (invocations s.log).Nodup
  neverAgain : NeverAgain s.log

end State

/-! ### What an event adds to the history -/

section History

variable {log : List (Event T)}

@[simp] theorem finished_invoked (pass : Nat) (callback : Callback T) :
    finished (log ++ [Event.invoked pass callback]) = finished log := by
  simp [finished, Event.finished?]

@[simp] theorem finished_answered (callback : Callback T) (ready : Bool) :
    finished (log ++ [Event.answered callback ready]) =
      finished log ++ if ready then [callback] else [] := by
  cases ready <;> simp [finished, Event.finished?]

@[simp] theorem invocations_invoked (pass : Nat) (callback : Callback T) :
    invocations (log ++ [Event.invoked pass callback]) = invocations log ++ [(pass, callback)] := by
  simp [invocations, Event.invoked?]

@[simp] theorem invocations_answered (callback : Callback T) (ready : Bool) :
    invocations (log ++ [Event.answered callback ready]) = invocations log := by
  simp [invocations, Event.invoked?]

theorem mem_finished {callback : Callback T} (h : .answered callback true ∈ log) :
    callback ∈ finished log :=
  List.mem_filterMap.mpr ⟨_, h, rfl⟩

theorem neverAgain_invoked (h : NeverAgain log) (pass : Nat) {callback : Callback T}
    (hc : callback ∉ finished log) : NeverAgain (log ++ [Event.invoked pass callback]) := by
  rw [NeverAgain, List.pairwise_append]
  refine ⟨h, List.pairwise_singleton _ _, ?_⟩
  intro e he e' he' c p hec heq
  rw [List.mem_singleton.mp he'] at heq
  cases heq
  exact hc (mem_finished (hec ▸ he))

theorem neverAgain_answered (h : NeverAgain log) (callback : Callback T) (ready : Bool) :
    NeverAgain (log ++ [Event.answered callback ready]) := by
  rw [NeverAgain, List.pairwise_append]
  refine ⟨h, List.pairwise_singleton _ _, ?_⟩
  intro e _ e' he' c p _ heq
  rw [List.mem_singleton.mp he'] at heq
  cases heq

end History

/-! ### One step -/

namespace State

variable {s t : State T}

theorem Sound.added_nodup (h : Sound s) : s.added.Nodup := by
  apply List.Nodup.of_map Callback.id
  rw [h.ids]
  exact List.nodup_range

theorem Sound.nodup (h : Sound s) : (finished s.log ++ s.callbacks ++ s.inPasses).Nodup :=
  h.conserved.nodup_iff.mp h.added_nodup

theorem addCallback_sound (h : Sound s) (query : T) : Sound (s.addCallback query) where
  ids := by
    simp [addCallback, h.ids, List.range_succ]
  conserved := by
    classical
    have hc := List.perm_iff_count.mp h.conserved
    rw [List.perm_iff_count]
    intro c
    have := hc c
    simp only [addCallback, inPasses, List.count_append] at this ⊢
    omega
  passIds := h.passIds
  begun := h.begun
  begunLog := h.begunLog
  waiting := h.waiting
  once := h.once
  neverAgain := h.neverAgain

/-- **The next invocation of a pass**, a new one or one that goes on. -/
theorem Sound.invoke {callbacks : List (Callback T)} {p : Pass T} {outer : List (Pass T)}
    {begun : Nat} {log : List (Event T)} (h : Sound s)
    (hperm : s.added.Perm (finished log ++ callbacks ++ (p :: outer).flatMap Pass.held))
    (hids : ((p :: outer).map Pass.id).Nodup) (hbegun : s.begun ≤ begun ∧ p.id < begun)
    (houter : ∀ q ∈ outer, q ∈ s.passes)
    (hnext : ∀ c ∈ p.running :: p.waiting, (p.id, c) ∉ invocations s.log)
    (hsame : invocations log = invocations s.log) (hlog : NeverAgain log) :
    Sound ⟨callbacks, p :: outer, s.added, begun, log ++ [Event.invoked p.id p.running]⟩ := by
  have hnodup := hperm.nodup_iff.mp h.added_nodup
  rw [List.flatMap_cons, Pass.held] at hnodup
  have hfresh : p.running ∉ finished log := by
    intro hmem
    rw [List.append_assoc] at hnodup
    exact (List.nodup_append.mp hnodup).2.2 _ hmem p.running (by simp) rfl
  have hrest : p.running ∉ p.waiting := by
    have hheld := (List.nodup_append.mp (List.nodup_append.mp hnodup).2.1).1
    exact (List.nodup_cons.mp (List.nodup_append.mp hheld).2.1).1
  exact {
    ids := h.ids
    conserved := by
      dsimp only
      rw [finished_invoked]
      exact hperm
    passIds := hids
    begun := by
      intro q hq
      rcases List.mem_cons.mp hq with rfl | hq
      · exact hbegun.2
      · exact Nat.lt_of_lt_of_le (h.begun q (houter q hq)) hbegun.1
    begunLog := by
      intro i hi
      rw [invocations_invoked, hsame] at hi
      rcases List.mem_append.mp hi with hi | hi
      · exact Nat.lt_of_lt_of_le (h.begunLog i hi) hbegun.1
      · rw [List.mem_singleton.mp hi]
        exact hbegun.2
    waiting := by
      intro q hq c hcw hmem
      rw [invocations_invoked, hsame] at hmem
      rcases List.mem_cons.mp hq with rfl | hq
      · rcases List.mem_append.mp hmem with hmem | hmem
        · exact hnext c (List.mem_cons_of_mem _ hcw) hmem
        · cases List.mem_singleton.mp hmem
          exact hrest hcw
      · rcases List.mem_append.mp hmem with hmem | hmem
        · exact h.waiting q (houter q hq) c hcw hmem
        · have hid : q.id = p.id := congrArg Prod.fst (List.mem_singleton.mp hmem)
          exact (List.nodup_cons.mp hids).1 (hid ▸ List.mem_map_of_mem hq)
    once := by
      rw [invocations_invoked, hsame, ← List.concat_eq_append]
      exact h.once.concat (hnext _ List.mem_cons_self)
    neverAgain := neverAgain_invoked hlog _ hfresh }

theorem processReadyCallbacks_sound (h : Sound s) : Sound s.processReadyCallbacks := by
  rw [processReadyCallbacks]
  cases hc : s.callbacks with
  | nil => exact h
  | cons first rest =>
    have hperm := h.conserved
    rw [hc] at hperm
    apply h.invoke _ _ ⟨Nat.le_succ _, Nat.lt_succ_self _⟩ (fun q hq => hq) _ rfl h.neverAgain
    · simpa [inPasses, Pass.held] using hperm
    · rw [List.map_cons, List.nodup_cons]
      refine ⟨fun hmem => ?_, h.passIds⟩
      obtain ⟨p, hp, hid⟩ := List.mem_map.mp hmem
      exact Nat.lt_irrefl _ (hid ▸ h.begun p hp)
    · intro c _ hmem
      exact Nat.lt_irrefl _ (h.begunLog _ hmem)

/-- The vector of a pass without the callback that has just answered. -/
def afterAnswer (p : Pass T) (ready : Bool) : List (Callback T) :=
  if ready then p.kept else p.kept ++ [p.running]

theorem answer_conserved {p : Pass T} {outer : List (Pass T)} (h : Sound s)
    (hp : s.passes = p :: outer) (ready : Bool) :
    s.added.Perm (finished (s.log ++ [Event.answered p.running ready]) ++ s.callbacks ++
      (afterAnswer p ready ++ p.waiting ++ outer.flatMap Pass.held)) := by
  classical
  have hcount := List.perm_iff_count.mp h.conserved
  rw [List.perm_iff_count]
  intro c
  have hc := hcount c
  rw [inPasses, hp, List.flatMap_cons, Pass.held] at hc
  cases ready <;>
    simp [afterAnswer, List.count_cons, List.count_append] at hc ⊢ <;> omega

theorem answer_sound (h : Sound s) {ready : Bool} (hstep : s.answer ready = .ok t) : Sound t := by
  rw [answer] at hstep
  cases hp : s.passes with
  | nil => rw [hp] at hstep; cases hstep
  | cons p outer =>
    rw [hp] at hstep
    dsimp only at hstep
    rw [← afterAnswer] at hstep
    have hperm := answer_conserved h hp ready
    have hids := h.passIds
    rw [hp, List.map_cons] at hids
    have houter : ∀ q ∈ outer, q ∈ s.passes := by
      intro q hq
      rw [hp]
      exact List.mem_cons_of_mem _ hq
    have hmem : p ∈ s.passes := by
      rw [hp]
      exact List.mem_cons_self
    have hlog : NeverAgain (s.log ++ [Event.answered p.running ready]) :=
      neverAgain_answered h.neverAgain _ _
    cases hw : p.waiting with
    | nil =>
      rw [hw] at hstep hperm
      cases hstep
      exact {
        ids := h.ids
        conserved := by simpa [inPasses] using hperm
        passIds := (List.nodup_cons.mp hids).2
        begun := fun q hq => h.begun q (houter q hq)
        begunLog := by
          rw [invocations_answered]
          exact h.begunLog
        waiting := by
          rw [invocations_answered]
          exact fun q hq => h.waiting q (houter q hq)
        once := by
          rw [invocations_answered]
          exact h.once
        neverAgain := hlog }
    | cons next rest =>
      rw [hw] at hstep hperm
      cases hstep
      apply h.invoke (p := ⟨p.id, afterAnswer p ready, next, rest⟩) _ hids
        ⟨Nat.le_refl _, h.begun p hmem⟩ houter _ (invocations_answered _ _) hlog
      · simpa [Pass.held] using hperm
      · intro c hc
        exact h.waiting p hmem c (hw ▸ hc)

/-- **Every step keeps the invariant.** -/
theorem step_sound (a : Act T) (h : Sound s) (hstep : s.step a = .ok t) : Sound t := by
  cases a with
  | addCallback query => cases hstep; exact addCallback_sound h query
  | processReadyCallbacks => cases hstep; exact processReadyCallbacks_sound h
  | answer ready => exact answer_sound h hstep

theorem sound_new : Sound ({} : State T) := by
  constructor <;> simp [finished, invocations, inPasses, NeverAgain]

theorem step_added (a : Act T) (hstep : s.step a = .ok t) :
    t.added.map Callback.query = s.added.map Callback.query ++ a.query?.toList := by
  cases a with
  | addCallback query =>
    cases hstep
    simp [addCallback, Act.query?]
  | processReadyCallbacks =>
    cases hstep
    rw [processReadyCallbacks]
    cases s.callbacks <;> simp [Act.query?]
  | answer ready =>
    change s.answer ready = .ok t at hstep
    rw [answer] at hstep
    cases hp : s.passes with
    | nil => rw [hp] at hstep; cases hstep
    | cons p outer =>
      rw [hp] at hstep
      dsimp only at hstep
      cases hw : p.waiting <;> rw [hw] at hstep <;> cases hstep <;> simp [Act.query?]

theorem run_added {acts : List (Act T)} (h : run step s acts = .ok t) :
    t.added.map Callback.query = s.added.map Callback.query ++ acts.filterMap Act.query? := by
  induction acts generalizing s with
  | nil => cases h; simp
  | cons a acts ih =>
    obtain ⟨m, hstep, hrun⟩ := run_cons_ok h
    rw [ih hrun, step_added a hstep]
    cases hq : a.query? <;> simp [hq]

/-- **No callback is lost, and none is invoked too often.**  In every run from a new
processor, the callbacks that were added are, whenever no pass is under way, those that have
answered `true` and those stored, each in one place; after its answer `true` a callback is
not invoked, and in one pass it is invoked at most once. -/
theorem callbacks_kept (acts : List (Act T)) (s : State T) (h : run step {} acts = .ok s) :
    s.added.map Callback.query = acts.filterMap Act.query? ∧ s.added.Nodup ∧
      (s.passes = [] → s.added.Perm (finished s.log ++ s.callbacks)) ∧
      NeverAgain s.log ∧ (invocations s.log).Nodup := by
  have hsound : Sound s := run_invariant (fun _ a _ hs hstep => step_sound a hs hstep) acts _ _
    sound_new h
  refine ⟨by simpa using run_added h, hsound.added_nodup, ?_, hsound.neverAgain, hsound.once⟩
  intro hp
  simpa [inPasses, hp] using hsound.conserved

/-- A callback that adds another, whose pass is nested, and that answers `false`. -/
theorem callbacks_kept_nested :
    ∃ s, run step ({} : State Nat) [.addCallback 7, .processReadyCallbacks, .addCallback 8,
        .processReadyCallbacks, .answer true, .answer false] = .ok s ∧
      s.added.Perm (finished s.log ++ s.callbacks) ∧ s.callbacks = [⟨0, 7⟩] := by
  obtain ⟨s, hs, ht⟩ := ok_of_any (p := fun s => s.passes = [] ∧ s.callbacks = [⟨0, 7⟩])
    (x := run step ({} : State Nat) [.addCallback 7, .processReadyCallbacks, .addCallback 8,
      .processReadyCallbacks, .answer true, .answer false]) (by decide)
  obtain ⟨hp, hcallbacks⟩ := of_decide_eq_true ht
  exact ⟨s, hs, (callbacks_kept _ s hs).2.2.1 hp, hcallbacks⟩

end State

end WarheadDiscord.AsyncCallbackProcessor
