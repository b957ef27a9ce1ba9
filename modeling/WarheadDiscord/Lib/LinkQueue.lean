import Mathlib.Data.List.Nodup
import Mathlib.Logic.Function.Basic
import Mathlib.Tactic.Common

/-!
# Queues that are linked late

A queue of nodes with a link from each to the next one.  A node enters by an exchange on the
head, and the link that leads to it is stored later: in between the queue has a gap.  The
tail moves along the links.

* `Linked`, `gaps`: a chain with gaps, and where they are.
* `LinkQueue`: the links, both ends, and the nodes in the order in which they entered.
* `LinkQueue.Sound`: the nodes that have not left form a chain whose gaps are exactly the
  links that are still to be stored.
* `Sound.storeNext`, `Sound.exchangeHead`, `Sound.link`, `Sound.storeTail`: the operations
  keep it.
* `Sound.end_of_no_links`: the tail is the only node, if it has no link and none is to come.
-/

namespace WarheadDiscord.Lib

variable {ν : Type*}

/-- Each node links to the one behind it, or to nothing, and the last one to nothing. -/
def Linked (next : ν → Option ν) : List ν → Prop
  | [] => True
  | [x] => next x = none
  | x :: y :: l => (next x = none ∨ next x = some y) ∧ Linked next (y :: l)

/-- The neighbours without a link between them. -/
def gaps (next : ν → Option ν) : List ν → List (ν × ν)
  | [] => []
  | [_] => []
  | x :: y :: l => if (next x).isNone then (x, y) :: gaps next (y :: l) else gaps next (y :: l)

section Chains

variable {next next' : ν → Option ν} {l : List ν} {n p x : ν}

theorem linked_congr (h : ∀ x ∈ l, next' x = next x) : Linked next' l ↔ Linked next l := by
  induction l with
  | nil => exact Iff.rfl
  | cons x l ih =>
    cases l with
    | nil => rw [Linked, Linked, h x (by simp)]
    | cons y l =>
      rw [Linked, Linked, h x (by simp), ih fun z hz => h z (List.mem_cons_of_mem _ hz)]

theorem gaps_congr (h : ∀ x ∈ l, next' x = next x) : gaps next' l = gaps next l := by
  induction l with
  | nil => rfl
  | cons x l ih =>
    cases l with
    | nil => rfl
    | cons y l =>
      rw [gaps, gaps, h x (by simp), ih fun z hz => h z (List.mem_cons_of_mem _ hz)]

theorem gaps_cons_of_some {y : ν} (h : next x = some y) : gaps next (x :: l) = gaps next l := by
  cases l with
  | nil => rfl
  | cons z l => rw [gaps, h, if_neg (by simp)]

/-- Both sides of a gap are in the chain, and nothing follows the first one. -/
theorem of_mem_gaps (h : (p, n) ∈ gaps next l) : p ∈ l ∧ n ∈ l ∧ next p = none := by
  induction l with
  | nil => cases h
  | cons x l ih =>
    cases l with
    | nil => cases h
    | cons y l =>
      rw [gaps] at h
      split at h
      · rename_i hx
        rcases List.mem_cons.mp h with heq | h
        · cases heq
          exact ⟨by simp, by simp, Option.isNone_iff_eq_none.mp hx⟩
        · obtain ⟨hp, hn, hnone⟩ := ih h
          exact ⟨List.mem_cons_of_mem _ hp, List.mem_cons_of_mem _ hn, hnone⟩
      · obtain ⟨hp, hn, hnone⟩ := ih h
        exact ⟨List.mem_cons_of_mem _ hp, List.mem_cons_of_mem _ hn, hnone⟩

theorem linked_concat (h : Linked next l) (hn : next n = none) : Linked next (l ++ [n]) := by
  induction l with
  | nil => exact hn
  | cons x l ih =>
    cases l with
    | nil => exact ⟨Or.inl h, hn⟩
    | cons y l => exact ⟨h.1, ih h.2⟩

theorem gaps_concat (h : Linked next l) (hlast : l.getLast? = some x) :
    gaps next (l ++ [n]) = gaps next l ++ [(x, n)] := by
  induction l with
  | nil => cases hlast
  | cons z l ih =>
    cases l with
    | nil =>
      cases hlast
      change next z = none at h
      simp [gaps, h]
    | cons y l =>
      rw [List.getLast?_cons_cons] at hlast
      rw [List.cons_append, List.cons_append, gaps, ← List.cons_append, ih h.2 hlast, gaps]
      split <;> rfl

variable [DecidableEq ν]

/-- **The link closes the gap.** -/
theorem link_gap (hl : l.Nodup) (h : Linked next l) (hg : (p, n) ∈ gaps next l) :
    Linked (Function.update next p (some n)) l ∧
      gaps (Function.update next p (some n)) l = (gaps next l).erase (p, n) := by
  induction l with
  | nil => cases hg
  | cons x l ih =>
    cases l with
    | nil => cases hg
    | cons y l =>
      obtain ⟨hx, hrest⟩ := List.nodup_cons.mp hl
      by_cases hpx : p = x
      · subst hpx
        have hnot : (p, n) ∉ gaps next (y :: l) := fun hmem => hx (of_mem_gaps hmem).1
        have hsame : ∀ z ∈ y :: l, Function.update next p (some n) z = next z := by
          intro z hz
          exact Function.update_of_ne (by rintro rfl; exact hx hz) _ _
        rw [gaps] at hg ⊢
        rw [gaps]
        split at hg
        · rename_i hnone
          have hny : n = y := by
            rcases List.mem_cons.mp hg with heq | hmem
            · cases heq; rfl
            · exact absurd hmem hnot
          subst hny
          rw [if_pos hnone, Function.update_self, if_neg (by simp), List.erase_cons_head,
            gaps_congr hsame]
          exact ⟨⟨Or.inr (Function.update_self ..), (linked_congr hsame).mpr h.2⟩, rfl⟩
        · exact absurd hg hnot
      · have hxp : Function.update next p (some n) x = next x :=
          Function.update_of_ne (Ne.symm hpx) _ _
        have hg' : (p, n) ∈ gaps next (y :: l) := by
          rw [gaps] at hg
          split at hg
          · rcases List.mem_cons.mp hg with heq | hmem
            · cases heq; exact absurd rfl hpx
            · exact hmem
          · exact hg
        obtain ⟨hlinked, hgaps⟩ := ih hrest h.2 hg'
        refine ⟨⟨by rw [hxp]; exact h.1, hlinked⟩, ?_⟩
        rw [gaps, gaps, hxp, hgaps]
        split
        · rw [List.erase_cons_tail]
          simp [Ne.symm hpx]
        · rfl

end Chains

/-- The links, both ends, and the history of the ends. -/
structure LinkQueue (ν : Type*) where
  next : ν → Option ν
  head : ν
  tail : ν
  /-- The nodes that the head was, in order. -/
  entered : List ν
  /-- How often the tail was moved. -/
  moves : Nat

namespace LinkQueue

/-- The nodes that the tail has left. -/
def left (q : LinkQueue ν) : List ν := q.entered.take q.moves

/-- The nodes from the tail to the head. -/
def chain (q : LinkQueue ν) : List ν := q.entered.drop q.moves

/-- One node, which links to nothing. -/
def single (next : ν → Option ν) (n : ν) : LinkQueue ν := ⟨next, n, n, [n], 0⟩

def exchangeHead (q : LinkQueue ν) (n : ν) : LinkQueue ν :=
  { q with head := n, entered := q.entered ++ [n] }

def storeTail (q : LinkQueue ν) (n : ν) : LinkQueue ν :=
  { q with tail := n, moves := q.moves + 1 }

def storeNext [DecidableEq ν] (q : LinkQueue ν) (n : ν) (link : Option ν) : LinkQueue ν :=
  { q with next := Function.update q.next n link }

/-- The nodes from the tail to the head are a chain without repetitions, whose gaps are the
links to come. -/
structure Sound (q : LinkQueue ν) (links : List (ν × ν)) : Prop where
  nodup : q.chain.Nodup
  first : q.chain.head? = some q.tail
  last : q.chain.getLast? = some q.head
  linked : Linked q.next q.chain
  gaps : links.Perm (gaps q.next q.chain)

section Operations

variable {q : LinkQueue ν} {links : List (ν × ν)} {n p : ν}

theorem left_append_chain (q : LinkQueue ν) : q.left ++ q.chain = q.entered :=
  List.take_append_drop _ _

theorem sound_single {next : ν → Option ν} (h : next n = none) : Sound (single next n) [] where
  nodup := List.nodup_singleton n
  first := rfl
  last := rfl
  linked := h
  gaps := List.Perm.refl _

theorem Sound.perm {links' : List (ν × ν)} (h : Sound q links) (hp : links'.Perm links) :
    Sound q links' :=
  { h with gaps := hp.trans h.gaps }

theorem Sound.tail_mem (h : Sound q links) : q.tail ∈ q.chain := List.mem_of_head? h.first

theorem Sound.moves_lt (h : Sound q links) : q.moves < q.entered.length := by
  by_contra hle
  have hnil : q.chain = [] := List.drop_eq_nil_of_le (by omega)
  have hfirst := h.first
  rw [hnil] at hfirst
  cases hfirst

theorem Sound.cons (h : Sound q links) : ∃ l, q.chain = q.tail :: l := by
  have hfirst := h.first
  cases hc : q.chain with
  | nil => rw [hc] at hfirst; cases hfirst
  | cons x l =>
    rw [hc] at hfirst
    cases hfirst
    exact ⟨l, rfl⟩

theorem Sound.chain_exchangeHead (h : Sound q links) (n : ν) :
    (q.exchangeHead n).chain = q.chain ++ [n] :=
  List.drop_append_of_le_length (Nat.le_of_lt h.moves_lt)

theorem Sound.left_exchangeHead (h : Sound q links) (n : ν) : (q.exchangeHead n).left = q.left :=
  List.take_append_of_le_length (Nat.le_of_lt h.moves_lt)

theorem Sound.storeNext [DecidableEq ν] (h : Sound q links) (hn : n ∉ q.chain)
    (link : Option ν) : Sound (q.storeNext n link) links := by
  have hsame : ∀ x ∈ q.chain, Function.update q.next n link x = q.next x := by
    intro x hx
    exact Function.update_of_ne (by rintro rfl; exact hn hx) _ _
  exact {
    nodup := h.nodup
    first := h.first
    last := h.last
    linked := (linked_congr hsame).mpr h.linked
    gaps := h.gaps.trans (List.Perm.of_eq (gaps_congr hsame).symm) }

/-- **A node enters**, and the link to it is to come. -/
theorem Sound.exchangeHead (h : Sound q links) (hn : n ∉ q.chain) (hnext : q.next n = none) :
    Sound (q.exchangeHead n) ((q.head, n) :: links) where
  nodup := by
    rw [h.chain_exchangeHead, ← List.concat_eq_append]
    exact h.nodup.concat hn
  first := by
    rw [h.chain_exchangeHead, List.head?_append, h.first]
    rfl
  last := by
    rw [h.chain_exchangeHead, List.getLast?_concat]
    rfl
  linked := by
    rw [h.chain_exchangeHead]
    exact linked_concat h.linked hnext
  gaps := by
    rw [h.chain_exchangeHead]
    show ((q.head, n) :: links).Perm (Lib.gaps q.next (q.chain ++ [n]))
    rw [gaps_concat h.linked h.last]
    exact (h.gaps.cons _).trans (List.perm_append_singleton _ _).symm

/-- What is known of a link that is to come. -/
theorem Sound.of_link (h : Sound q links) (hl : (p, n) ∈ links) :
    p ∈ q.chain ∧ n ∈ q.chain ∧ q.next p = none :=
  of_mem_gaps (h.gaps.mem_iff.mp hl)

/-- **A link that was to come is stored.** -/
theorem Sound.link [DecidableEq ν] (h : Sound q links) (hl : (p, n) ∈ links) :
    Sound (q.storeNext p (some n)) (links.erase (p, n)) := by
  obtain ⟨hlinked, hgaps⟩ := link_gap h.nodup h.linked (h.gaps.mem_iff.mp hl)
  exact {
    nodup := h.nodup
    first := h.first
    last := h.last
    linked := hlinked
    gaps := (h.gaps.erase _).trans (List.Perm.of_eq hgaps.symm) }

theorem Sound.chain_of_link (h : Sound q links) (hn : q.next q.tail = some n) :
    ∃ l, q.chain = q.tail :: n :: l := by
  obtain ⟨l, hl⟩ := h.cons
  have hlinked := h.linked
  rw [hl] at hlinked
  cases l with
  | nil => rw [Linked, hn] at hlinked; cases hlinked
  | cons y l =>
    rcases hlinked.1 with hnone | hsome
    · rw [hn] at hnone; cases hnone
    · rw [hn] at hsome
      cases hsome
      exact ⟨l, hl⟩

theorem Sound.chain_storeTail (h : Sound q links) (n : ν) :
    q.chain = q.tail :: (q.storeTail n).chain := by
  obtain ⟨l, hl⟩ := h.cons
  have hdrop : (q.storeTail n).chain = q.chain.tail := by
    rw [LinkQueue.chain, LinkQueue.chain, List.tail_drop]
    rfl
  rw [hdrop, hl, List.tail_cons]

theorem Sound.left_storeTail (h : Sound q links) (n : ν) :
    (q.storeTail n).left = q.left ++ [q.tail] := by
  have hlt := h.moves_lt
  have hget : q.entered[q.moves]? = some q.tail := by
    rw [← List.head?_drop]
    exact h.first
  show q.entered.take (q.moves + 1) = _
  rw [List.take_add_one, hget]
  rfl

/-- **The tail moves along its link.** -/
theorem Sound.storeTail (h : Sound q links) (hn : q.next q.tail = some n) :
    Sound (q.storeTail n) links := by
  obtain ⟨l, hl⟩ := h.chain_of_link hn
  have htail : (q.storeTail n).chain = n :: l := by
    have hc := h.chain_storeTail n
    rw [hl] at hc
    exact (List.cons.inj hc).2.symm
  have hnodup := h.nodup
  have hlast := h.last
  have hlinked := h.linked
  have hgaps := h.gaps
  rw [hl] at hnodup hlast hlinked hgaps
  exact {
    nodup := by
      rw [htail]
      exact (List.nodup_cons.mp hnodup).2
    first := by
      rw [htail]
      rfl
    last := by
      rw [htail, ← List.getLast?_cons_cons]
      exact hlast
    linked := by
      rw [htail]
      exact hlinked.2
    gaps := by
      rw [htail]
      rw [gaps_cons_of_some hn] at hgaps
      exact hgaps }

theorem Sound.single_of_eq (h : Sound q links) (heq : q.tail = q.head) : q.chain = [q.tail] := by
  obtain ⟨l, hl⟩ := h.cons
  have hnodup := h.nodup
  have hlast := h.last
  rw [hl] at hnodup hlast
  cases l with
  | nil => exact hl
  | cons y l =>
    rw [List.getLast?_cons_cons, ← heq] at hlast
    exact absurd (List.mem_of_getLast? hlast) (List.nodup_cons.mp hnodup).1

/-- **At the end.**  The tail is the only node, if it has no link and none is to come. -/
theorem Sound.end_of_no_links (h : Sound q []) (hn : q.next q.tail = none) :
    q.chain = [q.tail] := by
  obtain ⟨l, hl⟩ := h.cons
  cases l with
  | nil => exact hl
  | cons y l =>
    have hgaps := h.gaps
    rw [hl, Lib.gaps, hn, if_pos Option.isNone_none] at hgaps
    exact absurd hgaps.length_eq (by simp)

end Operations

end LinkQueue

end WarheadDiscord.Lib
