import WarheadDiscord.Lib.LinkQueue

/-!
# Entering a queue that is linked late

A node enters in three accesses: its link is cleared, it is exchanged for the head, and the
old head is linked to it.  Any number of entries may be under way at once.

* `Entry`, `Entry.step`: an entry by its next access, and this access.
* `Entry.step_sound`: one access keeps the chain sound.  `Enters`: what it leaves as it is.
* `Entries`: the entries under way do not collide.  `Entries.step`, `Entries.insert`: the
  accesses of one of them, and a new one, keep this.
-/

namespace WarheadDiscord.Lib

variable {ν : Type*}

/-- An entry, by its next access. -/
inductive Entry (ν : Type*) where
  | storeNull (input : ν)
  | exchange (input : ν)
  | storeLink (prevHead input : ν)
  deriving DecidableEq, Repr

namespace Entry

/-- The node that enters. -/
def input : Entry ν → ν
  | .storeNull input => input
  | .exchange input => input
  | .storeLink _ input => input

/-- The node, if its exchange is to come. -/
def input? : Entry ν → Option ν
  | .storeNull input => some input
  | .exchange input => some input
  | .storeLink _ _ => none

/-- The link that is to come. -/
def link? : Entry ν → Option (ν × ν)
  | .storeLink prevHead input => some (prevHead, input)
  | _ => none

/-- The access, and the entry after it. -/
def step [DecidableEq ν] (q : LinkQueue ν) : Entry ν → LinkQueue ν × Option (Entry ν)
  | .storeNull input => (q.storeNext input none, some (.exchange input))
  | .exchange input => (q.exchangeHead input, some (.storeLink q.head input))
  | .storeLink prevHead input => (q.storeNext prevHead (some input), none)

/-- What holds before an access: the node is not yet in the chain, and links to nothing when
it is exchanged. -/
def Ready (q : LinkQueue ν) : Entry ν → Prop
  | .storeNull input => input ∉ q.chain
  | .exchange input => input ∉ q.chain ∧ q.next input = none
  | .storeLink _ _ => True

/-- What an access of the entry leaves as it is. -/
structure Enters (e : Entry ν) (q q' : LinkQueue ν) : Prop where
  tail : q'.tail = q.tail
  left : q'.left = q.left
  stays : ∀ x ∈ q.chain, x ∈ q'.chain
  linked : ∀ x ∈ q.chain, ∀ y, q.next x = some y → q'.next x = some y
  outside : ∀ x ∉ q.chain, e.input? ≠ some x → x ∉ q'.chain ∧ q'.next x = q.next x

section Step

variable {q q' : LinkQueue ν} {links : List (ν × ν)} {e e' : Entry ν} {x : ν}

theorem Ready.notMem (h : e.Ready q) (hx : e.input? = some x) : x ∉ q.chain := by
  cases e with
  | storeNull input => cases hx; exact h
  | exchange input => cases hx; exact h.1
  | storeLink prevHead input => cases hx

variable [DecidableEq ν]

theorem step_input? (h : (e.step q).2.bind input? = some x) : e.input? = some x := by
  cases e with
  | storeNull input => exact h
  | exchange input => cases h
  | storeLink prevHead input => cases h

theorem step_input (h : (e.step q).2 = some e') : e'.input = e.input := by
  cases e <;> cases h <;> rfl

/-- **One access** keeps the chain sound, with the entry's own link to come or stored. -/
theorem step_sound (h : q.Sound (e.link?.toList ++ links)) (he : e.Ready q) :
    (e.step q).1.Sound (((e.step q).2.bind link?).toList ++ links) ∧ e.Enters q (e.step q).1 ∧
      ∀ e', (e.step q).2 = some e' → e'.Ready (e.step q).1 := by
  cases e with
  | storeNull input =>
    have hq : q.Sound links := h
    refine ⟨hq.storeNext he none, ⟨rfl, rfl, fun x hx => hx, ?_, ?_⟩, ?_⟩
    · intro x hx y hy
      have hne : x ≠ input := by
        rintro rfl
        exact he hx
      exact (Function.update_of_ne hne _ _).trans hy
    · intro x hx hne
      refine ⟨hx, Function.update_of_ne ?_ _ _⟩
      rintro rfl
      exact hne rfl
    · rintro e' heq
      cases heq
      exact ⟨he, Function.update_self ..⟩
  | exchange input =>
    have hq : q.Sound links := h
    refine ⟨hq.exchangeHead he.1 he.2, ⟨rfl, hq.left_exchangeHead _, ?_, fun x hx y hy => hy, ?_⟩,
      ?_⟩
    · intro x hx
      show x ∈ (q.exchangeHead input).chain
      rw [hq.chain_exchangeHead]
      exact List.mem_append_left _ hx
    · intro x hx hne
      refine ⟨?_, rfl⟩
      show x ∉ (q.exchangeHead input).chain
      rw [hq.chain_exchangeHead, List.mem_append, List.mem_singleton, not_or]
      refine ⟨hx, ?_⟩
      rintro rfl
      exact hne rfl
    · rintro e' heq
      cases heq
      trivial
  | storeLink prevHead input =>
    have hq : q.Sound ((prevHead, input) :: links) := h
    obtain ⟨hp, -, hnone⟩ := hq.of_link List.mem_cons_self
    refine ⟨?_, ⟨rfl, rfl, fun x hx => hx, ?_, ?_⟩, ?_⟩
    · have hlink := hq.link List.mem_cons_self
      rw [List.erase_cons_head] at hlink
      exact hlink
    · intro x hx y hy
      have hne : x ≠ prevHead := by
        rintro rfl
        rw [hnone] at hy
        cases hy
      exact (Function.update_of_ne hne _ _).trans hy
    · intro x hx hne
      refine ⟨hx, Function.update_of_ne ?_ _ _⟩
      rintro rfl
      exact hx hp
    · rintro e' heq
      cases heq

end Step

end Entry

/-! ### Entries under way -/

/-- The nodes whose exchange is to come. -/
def entering (es : List (Entry ν)) : List ν := es.filterMap Entry.input?

/-- The entries under way and some other links to come: the chain is sound, and the nodes
that enter are different ones, outside of the chain. -/
structure Entries (q : LinkQueue ν) (others : List (ν × ν)) (es : List (Entry ν)) : Prop where
  sound : q.Sound (others ++ es.filterMap Entry.link?)
  nodup : (entering es).Nodup
  notMem : ∀ x ∈ entering es, x ∉ q.chain
  null : ∀ x, .exchange x ∈ es → q.next x = none

section Entries

variable {q q' : LinkQueue ν} {others : List (ν × ν)} {es : List (Entry ν)} {e : Entry ν} {x : ν}

theorem mem_entering {x : ν} (he : e ∈ es) (hx : e.input? = some x) : x ∈ entering es :=
  List.mem_filterMap.mpr ⟨e, he, hx⟩

theorem entries_single {next : ν → Option ν} (h : next x = none) :
    Entries (LinkQueue.single next x) [] [] where
  sound := LinkQueue.sound_single h
  nodup := List.nodup_nil
  notMem := by
    intro y hy
    cases hy
  null := by
    intro y hy
    cases hy

theorem Entries.ready (h : Entries q others es) (he : e ∈ es) : e.Ready q := by
  cases e with
  | storeNull input => exact h.notMem input (mem_entering he rfl)
  | exchange input => exact ⟨h.notMem input (mem_entering he rfl), h.null input he⟩
  | storeLink prevHead input => trivial

theorem Entries.insert (h : Entries q others es) (hchain : x ∉ q.chain) (hx : x ∉ entering es) :
    Entries q others (.storeNull x :: es) where
  sound := h.sound
  nodup := List.nodup_cons.mpr ⟨hx, h.nodup⟩
  notMem := by
    intro y hy
    rcases List.mem_cons.mp hy with rfl | hy
    · exact hchain
    · exact h.notMem y hy
  null := by
    intro y hy
    rcases List.mem_cons.mp hy with heq | hy
    · cases heq
    · exact h.null y hy

theorem Entries.storeTail {next : ν} (h : Entries q others es) (hn : q.next q.tail = some next) :
    Entries (q.storeTail next) others es where
  sound := h.sound.storeTail hn
  nodup := h.nodup
  notMem := by
    intro x hx hmem
    apply h.notMem x hx
    rw [h.sound.chain_storeTail next]
    exact List.mem_cons_of_mem _ hmem
  null := h.null

theorem filterMap_toList {α β : Type*} (f : α → Option β) (o : Option α) :
    o.toList.filterMap f = (o.bind f).toList := by
  cases o with
  | none => rfl
  | some a => cases h : f a <;> simp [h]

variable [DecidableEq ν]

theorem filterMap_perm_erase {β : Type*} (f : Entry ν → Option β) (h : e ∈ es) :
    (es.filterMap f).Perm ((f e).toList ++ (es.erase e).filterMap f) := by
  refine ((List.perm_cons_erase h).filterMap f).trans (List.Perm.of_eq ?_)
  rw [List.filterMap_cons]
  cases f e <;> rfl

/-- **An access of one of the entries** leaves the others as they are. -/
theorem Entries.step (h : Entries q others es) (he : e ∈ es) :
    Entries (e.step q).1 others ((e.step q).2.toList ++ es.erase e) ∧ e.Enters q (e.step q).1 := by
  have hlinks : (e.link?.toList ++ (others ++ (es.erase e).filterMap Entry.link?)).Perm
      (others ++ es.filterMap Entry.link?) := by
    refine (List.perm_append_comm_assoc _ _ _).trans ?_
    exact (filterMap_perm_erase _ he).symm.append_left _
  have hentering : (entering es).Perm (e.input?.toList ++ entering (es.erase e)) :=
    filterMap_perm_erase Entry.input? he
  have hnodup := hentering.nodup_iff.mp h.nodup
  obtain ⟨hsound, henters, hready⟩ := Entry.step_sound (h.sound.perm hlinks) (h.ready he)
  have hinput := fun x => Entry.step_input? (q := q) (e := e) (x := x)
  generalize e.step q = r at hsound henters hready hinput ⊢
  obtain ⟨q', e'⟩ := r
  dsimp only at hsound henters hready hinput ⊢
  -- The nodes of the other entries.
  have hrest : ∀ x ∈ entering (es.erase e), x ∉ q'.chain ∧ q'.next x = q.next x := by
    intro x hx
    refine henters.outside x (h.notMem x (hentering.mem_iff.mpr (List.mem_append_right _ hx))) ?_
    intro heq
    exact (List.nodup_append.mp hnodup).2.2 x (by rw [heq]; simp) x hx rfl
  have hentering' : entering (e'.toList ++ es.erase e) =
      (e'.bind Entry.input?).toList ++ entering (es.erase e) := by
    rw [entering, List.filterMap_append, filterMap_toList]
    rfl
  refine ⟨⟨?_, ?_, ?_, ?_⟩, henters⟩
  · refine hsound.perm ?_
    rw [List.filterMap_append, filterMap_toList]
    exact List.perm_append_comm_assoc _ _ _
  · rw [hentering']
    cases hx : e'.bind Entry.input? with
    | none => exact (List.nodup_append.mp hnodup).2.1
    | some x =>
      rw [hinput x hx] at hnodup
      exact hnodup
  · intro x hx
    rw [hentering', List.mem_append, Option.mem_toList] at hx
    rcases hx with hx | hx
    · obtain ⟨a, ha, hax⟩ := Option.bind_eq_some_iff.mp hx
      exact Entry.Ready.notMem (hready a ha) hax
    · exact (hrest x hx).1
  · intro x hx
    rcases List.mem_append.mp hx with hx | hx
    · exact (hready _ (Option.mem_toList.mp hx)).2
    · exact (hrest x (mem_entering hx rfl)).2.trans (h.null x (List.mem_of_mem_erase hx))

/-- An access of an entry that is none of these. -/
theorem Entries.step_other (h : Entries q e.link?.toList es) (he : e.Ready q)
    (hx : ∀ x, e.input? = some x → x ∉ entering es) :
    Entries (e.step q).1 ((e.step q).2.bind Entry.link?).toList es ∧ e.Enters q (e.step q).1 ∧
      ∀ e', (e.step q).2 = some e' → e'.Ready (e.step q).1 := by
  obtain ⟨hsound, henters, hready⟩ := Entry.step_sound h.sound he
  have hsame : ∀ x ∈ entering es, x ∉ (e.step q).1.chain ∧ (e.step q).1.next x = q.next x :=
    fun x hmem => henters.outside x (h.notMem x hmem) fun heq => hx x heq hmem
  exact ⟨⟨hsound, h.nodup, fun x hmem => (hsame x hmem).1,
    fun x hmem => (hsame x (mem_entering hmem rfl)).2.trans (h.null x hmem)⟩, henters, hready⟩

/-- What has entered and what is on its way, before and after an access. -/
theorem step_entered (q : LinkQueue ν) (he : e ∈ es) :
    ((e.step q).1.entered ++ entering ((e.step q).2.toList ++ es.erase e)).Perm
      (q.entered ++ entering es) := by
  have hentering : (entering es).Perm (e.input?.toList ++ entering (es.erase e)) :=
    filterMap_perm_erase Entry.input? he
  refine List.Perm.trans (List.Perm.of_eq ?_) (hentering.symm.append_left _)
  cases e with
  | storeNull input => rfl
  | exchange input => exact List.append_assoc _ _ _
  | storeLink prevHead input => rfl

theorem filterMap_step_entered {β : Type*} {f : ν → Option β} (q : LinkQueue ν)
    (h : f e.input = none) : (e.step q).1.entered.filterMap f = q.entered.filterMap f := by
  cases e with
  | storeNull input => rfl
  | exchange input =>
    change f input = none at h
    simp [Entry.step, LinkQueue.exchangeHead, h]
  | storeLink prevHead input => rfl

end Entries

end WarheadDiscord.Lib
