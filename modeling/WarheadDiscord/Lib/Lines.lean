import Mathlib.Data.List.Basic
import Mathlib.Tactic.Common

/-!
# Lines that come in chunks

A text is read as its lines that are not empty, and lines end at some of the characters.  A text
that comes in chunks, each of which is read for itself, is read with its lines torn at some of
the cuts.

* `linesFrom`, `lines`: the lines of a text.
* `tears`: the cuts that are inside a line.
* `length_flatMap_lines`, `flatMap_lines_eq_iff`: **what the chunks make of the lines**.
-/

namespace WarheadDiscord.Lib

section Lines

variable {α : Type*} (isEnd : α → Bool)

/-- The line that is open, if it is not empty. -/
def flush (carry : List α) : List (List α) := if carry.isEmpty then [] else [carry]

/-- The lines of a text behind an open line. -/
def linesFrom (carry : List α) : List α → List (List α)
  | [] => flush carry
  | c :: s => if isEnd c then flush carry ++ linesFrom [] s else linesFrom (carry ++ [c]) s

def lines (s : List α) : List (List α) := linesFrom isEnd [] s

/-- A cut that is inside a line. -/
def Torn (a b : List α) : Prop :=
  (∃ x ∈ a.getLast?, isEnd x = false) ∧ ∃ y ∈ b.head?, isEnd y = false

instance (a b : List α) : Decidable (Torn isEnd a b) :=
  inferInstanceAs (Decidable (_ ∧ _))

/-- The number of the cuts inside a line. -/
def tears : List (List α) → Nat
  | [] => 0
  | c :: cs => (if Torn isEnd c cs.flatten then 1 else 0) + tears cs

variable {isEnd} {carry a b s : List α}

theorem flush_nil : flush ([] : List α) = [] := rfl

theorem flush_of_ne_nil (h : carry ≠ []) : flush carry = [carry] := by
  rw [flush, if_neg (by simpa using h)]

theorem flatten_flush (carry : List α) : (flush carry).flatten = carry := by
  cases carry with
  | nil => rfl
  | cons c s => exact List.append_nil _

/-! ### The lines -/

theorem flatten_linesFrom (carry s : List α) :
    (linesFrom isEnd carry s).flatten = carry ++ s.filter (!isEnd ·) := by
  induction s generalizing carry with
  | nil => rw [linesFrom, flatten_flush, List.filter_nil, List.append_nil]
  | cons c s ih =>
    rw [linesFrom]
    cases hc : isEnd c with
    | true =>
      rw [if_pos rfl, List.flatten_append, flatten_flush, ih,
        List.filter_cons_of_neg (by simp [hc])]
      rfl
    | false =>
      rw [if_neg (by decide), ih, List.filter_cons_of_pos (by simp [hc]), List.append_assoc]
      rfl

theorem of_mem_linesFrom (hcarry : ∀ c ∈ carry, isEnd c = false) {line : List α}
    (h : line ∈ linesFrom isEnd carry s) : line ≠ [] ∧ ∀ c ∈ line, isEnd c = false := by
  have hflush : ∀ carry : List α, (∀ c ∈ carry, isEnd c = false) → line ∈ flush carry →
      line ≠ [] ∧ ∀ c ∈ line, isEnd c = false := by
    intro carry hcarry hmem
    cases carry with
    | nil => cases hmem
    | cons x carry =>
      rw [flush_of_ne_nil (by simp), List.mem_singleton] at hmem
      subst hmem
      exact ⟨by simp, hcarry⟩
  induction s generalizing carry with
  | nil => exact hflush carry hcarry h
  | cons c s ih =>
    rw [linesFrom] at h
    cases hc : isEnd c with
    | true =>
      rw [hc, if_pos rfl] at h
      rcases List.mem_append.mp h with hmem | hmem
      · exact hflush carry hcarry hmem
      · exact ih (fun x hx => absurd hx List.not_mem_nil) hmem
    | false =>
      rw [hc, if_neg (by decide)] at h
      refine ih (fun x hx => ?_) h
      rcases List.mem_append.mp hx with hx | hx
      · exact hcarry x hx
      · rw [List.mem_singleton.mp hx]
        exact hc

theorem linesFrom_append_of_forall (hs : ∀ c ∈ s, isEnd c = false) (carry rest : List α) :
    linesFrom isEnd carry (s ++ rest) = linesFrom isEnd (carry ++ s) rest := by
  induction s generalizing carry with
  | nil => rw [List.nil_append, List.append_nil]
  | cons c s ih =>
    have hc := hs c List.mem_cons_self
    rw [List.cons_append, linesFrom, if_neg (by rw [hc]; decide),
      ih fun x hx => hs x (List.mem_cons_of_mem _ hx), List.append_assoc]
    rfl

/-! ### A cut -/

/-- The number of the lines does not depend on what is in the open line. -/
theorem length_linesFrom (h : carry ≠ []) (hb : a ≠ []) :
    (linesFrom isEnd carry s).length = (linesFrom isEnd a s).length := by
  induction s generalizing carry a with
  | nil => rw [linesFrom, linesFrom, flush_of_ne_nil h, flush_of_ne_nil hb]; rfl
  | cons c s ih =>
    rw [linesFrom, linesFrom]
    split
    · rw [flush_of_ne_nil h, flush_of_ne_nil hb]
      rfl
    · exact ih (by simp) (by simp)

/-- The text behind a line that it does not continue. -/
theorem linesFrom_of_not_torn (h : ¬ ∃ y ∈ s.head?, isEnd y = false) :
    linesFrom isEnd carry s = flush carry ++ lines isEnd s := by
  cases s with
  | nil => rw [lines, linesFrom, linesFrom, flush_nil, List.append_nil]
  | cons c s =>
    have hc : isEnd c = true := by
      rw [← Bool.not_eq_false]
      exact fun hc => h ⟨c, rfl, hc⟩
    rw [lines, linesFrom, linesFrom, if_pos hc, if_pos hc, flush_nil, List.nil_append]

/-- And behind a line that it does continue, which was told as a line of its own. -/
theorem length_linesFrom_of_torn (hcarry : carry ≠ []) (h : ∃ y ∈ s.head?, isEnd y = false) :
    (linesFrom isEnd carry s).length + 1 = (flush carry ++ lines isEnd s).length := by
  obtain ⟨y, hy, hend⟩ := h
  cases s with
  | nil => cases hy
  | cons c s =>
    cases hy
    have hc : ¬ isEnd y = true := by
      rw [hend]
      decide
    rw [lines, linesFrom, linesFrom, if_neg hc, if_neg hc, flush_of_ne_nil hcarry,
      List.length_append, List.length_singleton, Nat.add_comm,
      length_linesFrom (a := [] ++ [y]) (by simp) (by simp)]

variable (isEnd) in
/-- **A cut**: the lines of a text that is cut. -/
theorem lines_append (a b : List α) :
    (lines isEnd (a ++ b)).length + (if Torn isEnd a b then 1 else 0) =
        (lines isEnd a ++ lines isEnd b).length ∧
      (¬ Torn isEnd a b → lines isEnd (a ++ b) = lines isEnd a ++ lines isEnd b) := by
  -- The open line behind `a`, and what `a` closes, do not depend on `b`.
  have hopen : ∀ (a carry : List α), ∃ (closed : List (List α)) (last : List α),
      (∀ b, linesFrom isEnd carry (a ++ b) = closed ++ linesFrom isEnd last b) ∧
        (last ≠ [] ↔ (a = [] ∧ carry ≠ []) ∨ ∃ x ∈ a.getLast?, isEnd x = false) := by
    intro a
    induction a with
    | nil => intro carry; exact ⟨[], carry, fun b => rfl, by simp⟩
    | cons c a ih =>
      intro carry
      cases hc : isEnd c with
      | true =>
        obtain ⟨closed, last, heq, hlast⟩ := ih []
        refine ⟨flush carry ++ closed, last, fun b => ?_, ?_⟩
        · rw [List.cons_append, linesFrom, if_pos hc, heq, List.append_assoc]
        · rw [hlast]
          cases a with
          | nil => simp [hc]
          | cons d a => simp
      | false =>
        obtain ⟨closed, last, heq, hlast⟩ := ih (carry ++ [c])
        refine ⟨closed, last, fun b => ?_, ?_⟩
        · rw [List.cons_append, linesFrom, if_neg (by rw [hc]; decide), heq]
        · rw [hlast]
          cases a with
          | nil => simp [hc]
          | cons d a => simp
  obtain ⟨closed, last, heq, hlast⟩ := hopen a []
  have hall : lines isEnd (a ++ b) = closed ++ linesFrom isEnd last b := heq b
  have ha : lines isEnd a = closed ++ flush last := by
    have h := heq []
    rw [List.append_nil] at h
    exact h
  have hopened : last ≠ [] ↔ ∃ x ∈ a.getLast?, isEnd x = false := by
    rw [hlast]
    simp
  rw [hall, ha, List.append_assoc]
  by_cases hhead : ∃ y ∈ b.head?, isEnd y = false
  · by_cases hne : last = []
    · have hnot : ¬ Torn isEnd a b := fun h => hopened.mpr h.1 hne
      rw [if_neg hnot, hne, flush_nil]
      exact ⟨rfl, fun _ => rfl⟩
    · have htorn : Torn isEnd a b := ⟨hopened.mp hne, hhead⟩
      rw [if_pos htorn]
      refine ⟨?_, fun h => absurd htorn h⟩
      rw [List.length_append, List.length_append, ← length_linesFrom_of_torn hne hhead]
      omega
  · rw [if_neg fun h => hhead h.2, linesFrom_of_not_torn hhead]
    exact ⟨rfl, fun _ => rfl⟩

/-! ### Chunks -/

variable (isEnd) in
/-- **Each cut inside a line makes one line more.** -/
theorem length_flatMap_lines (chunks : List (List α)) :
    (chunks.flatMap (lines isEnd)).length =
      (lines isEnd chunks.flatten).length + tears isEnd chunks := by
  induction chunks with
  | nil => rfl
  | cons c cs ih =>
    have hcut := (lines_append isEnd c cs.flatten).1
    rw [List.length_append] at hcut
    rw [List.flatMap_cons, List.length_append, ih, List.flatten_cons, tears]
    omega

variable (isEnd) in
/-- **The lines are told as they are** exactly if no cut is inside a line. -/
theorem flatMap_lines_eq_iff (chunks : List (List α)) :
    chunks.flatMap (lines isEnd) = lines isEnd chunks.flatten ↔ tears isEnd chunks = 0 := by
  constructor
  · intro h
    have hlen := length_flatMap_lines isEnd chunks
    rw [h] at hlen
    omega
  · intro h
    induction chunks with
    | nil => rfl
    | cons c cs ih =>
      rw [tears] at h
      have hnot : ¬ Torn isEnd c cs.flatten := by
        intro ht
        rw [if_pos ht] at h
        omega
      rw [List.flatMap_cons, ih (by omega), List.flatten_cons, (lines_append isEnd c cs.flatten).2 hnot]

end Lines

end WarheadDiscord.Lib
