import WarheadDiscord.Client.Delivery
import WarheadDiscord.Shared.WriteQueue

/-!
# The life of a socket

What happens to a socket of the manager from its start on are actions of the socket:
those of its own events, the ticks and the packets that the manager passes on, and at
last the release.  `Kept` of `Holdings.lean` asks of a property that all the actions
there are keep it, in every environment.  Here the environment is the one of the run, and
the kernel answers as kernels do.

* `Admissible`: the answers that a kernel gives to a write that does not fail.
* `KeptBy`: what every socket keeps under such answers.
* `KeptBy.step_all`, `KeptBy.run_all`: **what one socket keeps, all the sockets of a run
  have.**
-/

namespace WarheadDiscord

open Lib

/-- The answers of the kernel in an action of a socket are admissible. -/
def ClientSocket.Act.Admissible : ClientSocket.Act → Prop
  | .update w => ∀ i n, (w i n).Admissible n
  | .writeReady w => ∀ n, (w n).Admissible n
  | _ => True

namespace ClientSocketMgr

/-- The same of an action of the manager. -/
def Act.Admissible : Act → Prop
  | .update tick => ∀ i n, (tick.writeSome i n).Admissible n
  | .runHandler _ _ tick _ => ∀ i n, (tick.writeSome i n).Admissible n
  | .socketEvent _ _ event => event.act.Admissible
  | _ => True

/-- A property of sockets that the manager does not break in the environment of the run, but for
the readings of the clock, as long as the kernel answers as it does. -/
structure KeptBy (env : Env) (e : Endian) (P : ClientSocket → Prop) : Prop where
  inv : ∀ {c}, P c → ClientSocket.Inv e c
  start : ∀ clock {c}, ClientSocket.begin { env with clock := clock } = .ok c → P c
  step : ∀ clock {c d a}, P c → a.Admissible →
    ClientSocket.step { env with clock := clock } e c a = .ok d → P d
  unflag : ∀ {c}, P c → P { c with session := { c.session with disconnectCalled := false } }

variable {env : Env} {e : Endian} {m t : ClientSocketMgr} {P : ClientSocket → Prop}
  {c d : ClientSocket}

namespace KeptBy

theorem release (hP : KeptBy env e P) (hc : P c) : P c.close.letGo :=
  hP.step env.clock (a := .release) hc trivial rfl

theorem enqueue (hP : KeptBy env e P) : ∀ (ps : List DiscordPacket) {c : ClientSocket}, P c →
    P { c with session := { c.session with bufferQueue := c.session.bufferQueue ++ ps } } := by
  intro ps
  induction ps with
  | nil => intro c hc; rw [List.append_nil]; exact hc
  | cons p ps ih =>
    intro c hc
    have hp := ih (hP.step env.clock (a := .addPacketToQueue p) hc trivial rfl)
    dsimp only [ClientSession.addPacketToQueue, PacketQueue.addPacket] at hp
    rw [List.append_assoc, List.singleton_append] at hp
    exact hp

/-- All the sockets have it. -/
abbrev All (P : ClientSocket → Prop) (m : ClientSocketMgr) : Prop := ∀ c ∈ m.holdings.sockets, P c

theorem all_of_parts {retired : List ClientSocket} {o : Option ClientSocket}
    (hr : ∀ c ∈ retired, P c) (ho : ∀ c, o = some c → P c) : ∀ c ∈ retired ++ o.toList, P c := by
  intro c hc
  rcases List.mem_append.mp hc with hc | hc
  · exact hr c hc
  · exact ho c (Option.mem_toList.mp hc)

theorem all_retired (h : All P m) : ∀ c ∈ m.retired, P c :=
  fun c hc => h c (List.mem_append_left _ hc)

theorem all_current (h : All P m) : ∀ c, m.clientSocket = some c → P c :=
  fun _ hc => h _ (mem_sockets hc)

theorem all_letGo {f : ClientSocket → ClientSocket} (hm : All P m) (hf : ∀ {c}, P c → P (f c)) :
    ∀ c ∈ m.retired ++ m.clientSocket.toList.map f, P c := by
  intro c hc
  rcases List.mem_append.mp hc with hc | hc
  · exact all_retired hm c hc
  · obtain ⟨b, hb, rfl⟩ := List.mem_map.mp hc
    exact hf (all_current hm b (Option.mem_toList.mp hb))

theorem disconnect (hP : KeptBy env e P) (hm : All P m) (h : m.disconnect = .ok t) : All P t := by
  obtain ⟨timer, -, rfl⟩ := disconnect_ok h
  refine all_of_parts (all_letGo hm fun {c} hc => ?_) fun c hc => by cases hc
  rw [ClientSocket.closeIfOpen_eq (hP.inv hc).session]
  exact hP.release hc

theorem update (hP : KeptBy env e P) {tick : Tick} (hm : All P m)
    (ha : ∀ i n, (tick.writeSome i n).Admissible n) (h : m.update tick = .ok t) : All P t := by
  have htick : ∀ {c}, P c → P { c with session := (c.session.update tick.writeSome).1 } :=
    fun hc => hP.step env.clock (a := .update tick.writeSome) hc ha rfl
  rcases update_cases h with ⟨-, rfl⟩ | ⟨-, timer, -, ⟨hn, rfl⟩ | ⟨c, hc, -, rfl⟩ |
    ⟨c, arrived, hc, -, rfl⟩⟩
  · exact hm
  · exact hm
  · refine all_of_parts ?_ fun c hc => by cases hc
    intro d hd
    rcases List.mem_append.mp hd with hd | hd
    · exact all_retired hm d hd
    · rw [List.mem_singleton.mp hd]
      exact hP.release (htick (all_current hm c hc))
  · refine all_of_parts (all_retired hm) fun d hd => ?_
    cases hd
    exact hP.enqueue _ (htick (all_current hm c hc))

theorem startSocket (hP : KeptBy env e P) (clock : Nat → Int64) (hm : All P m)
    (ho : m.hasOpenSocket = false) (h : m.startSocket { env with clock := clock } = .ok t) :
    All P t := by
  obtain ⟨m₁, c, timer, hm₁, hc, -, rfl⟩ := startSocket_ok h
  refine all_of_parts ?_ fun d hd => (by cases hd; exact hP.start clock hc)
  rcases hm₁ with rfl | hd
  · intro d hd
    rcases List.mem_append.mp hd with hd | hd
    · exact all_retired hm d hd
    -- the socket that is replaced is closed, so that letting go of it is a release
    · obtain ⟨b, hb, rfl⟩ := List.mem_map.mp hd
      have hbs : m₁.clientSocket = some b := Option.mem_toList.mp hb
      have hpb := all_current hm b hbs
      have hclosed : b.session.socket.closed = true := by
        rw [hasOpenSocket, hbs, Option.any_some, (hP.inv hpb).session.isOpen_eq] at ho
        simpa using ho
      rw [← ClientSocket.close_of_closed hclosed]
      exact hP.release hpb
  · have hall := hP.disconnect hm hd
    obtain ⟨timer', -, rfl⟩ := disconnect_ok hd
    intro d hd
    rcases List.mem_append.mp hd with hd | hd
    · exact all_retired hall d hd
    · cases hd

theorem connect (hP : KeptBy env e P) (clock : Nat → Int64) {connected : Nat → Bool} {n : UInt32}
    (hm : All P m) (h : m.connect { env with clock := clock } connected n = .ok t) : All P t := by
  rcases connect_cases h with ⟨-, rfl⟩ | ⟨ho, -, connects, hd | hs⟩
  · exact hm
  · exact hP.disconnect (m := { m with connects := m.connects ++ connects }) hm hd
  · exact hP.startSocket (m := { m with connects := m.connects ++ connects }) clock hm ho hs

theorem socketEvent (hP : KeptBy env e P) (clock : Nat → Int64) {which : Option Nat}
    {event : ClientSocket.Event} (hm : All P m) (ha : event.act.Admissible)
    (h : m.socketEvent { env with clock := clock } e which event = .ok t) : All P t := by
  rcases socketEvent_cases h with ⟨-, rfl⟩ | ⟨c, d, hc, hd, ht⟩
  · exact hm
  · have hpc : P c := by
      cases which with
      | none => exact all_current hm c hc
      | some k => exact all_retired hm c (List.mem_of_getElem? hc)
    have hpd : P d := hP.step clock (hP.unflag hpc) ha hd
    have hset : All P (m.setSocket d which) := by
      cases which with
      | none =>
        exact all_of_parts (all_retired (m := m) hm) fun x hx => by cases hx; exact hpd
      | some k =>
        refine all_of_parts (fun x hx => ?_) (all_current (m := m) hm)
        rcases List.mem_or_eq_of_mem_set hx with hx | rfl
        · exact all_retired hm x hx
        · exact hpd
    rcases ht with ht | rfl
    · exact hP.disconnect hset ht
    · exact hset

theorem step_all (hP : KeptBy env e P) {a : Act} (hm : All P m) (ha : a.Admissible)
    (h : m.step env e a = .ok t) : All P t := by
  cases a with
  | initializeMgr resolve =>
    rcases initializeMgr_cases h with ⟨-, rfl⟩ | ⟨-, m₁, rfl, ⟨-, rfl⟩ | ⟨address, -, rfl⟩⟩ <;>
      exact hm
  | connectToServer n =>
    obtain ⟨timer, -, rfl⟩ := connectToServer_ok h
    exact hm
  | disconnect => exact hP.disconnect hm h
  | update tick => exact hP.update hm ha h
  | addPacketToQueue p => cases h; exact hm
  | timerExpires =>
    cases h
    unfold timerExpires
    split <;> exact hm
  | runHandler i clock tick connected =>
    rw [ClientSocketMgr.step] at h
    split at h
    · cases h
      exact hm
    · rename_i handler hi
      cases handler with
      | update => exact hP.update (m := { m with ready := m.ready.eraseIdx i }) hm ha h
      | connect n => exact hP.connect (m := { m with ready := m.ready.eraseIdx i }) clock hm h
  | socketEvent which clock event => exact hP.socketEvent clock hm ha h

/-- **What one socket keeps, all the sockets of a run have.** -/
theorem run_all (hP : KeptBy env e P) : ∀ (acts : List Act) (m t : ClientSocketMgr), All P m →
    (∀ a ∈ acts, a.Admissible) → run (ClientSocketMgr.step env e) m acts = .ok t → All P t := by
  intro acts
  induction acts with
  | nil => intro m t hm _ h; cases h; exact hm
  | cons a acts ih =>
    intro m t hm ha h
    obtain ⟨u, hu, hr⟩ := run_cons_ok h
    exact ih u t (hP.step_all hm (ha a List.mem_cons_self) hu)
      (fun b hb => ha b (List.mem_cons_of_mem _ hb)) hr

end KeptBy

end ClientSocketMgr

end WarheadDiscord
