import WarheadDiscord.Common.Fault
import WarheadDiscord.Lib.Split

/-!
# `Tokenize`

`Tokenize.cpp`.  The loop looks for the next separator from a position on, and takes the text
between the two as a token.  `substr` throws when it is asked for a position behind the end.

* `tokenizeFrom_eq`: the loop from any position in the text.
* `tokenize_eq`: no call throws, and the tokens are the parts between the separators.
* `tokenize_spec`: what this says about both modes.
-/

namespace WarheadDiscord

open Lib

/-- `std::string_view::find(c, pos)`, with `none` for `npos`. -/
def StringView.find (str : List UInt8) (c : UInt8) (pos : Nat) : Option Nat :=
  ((str.drop pos).idxOf? c).map (pos + ·)

/-- `std::string_view::substr(pos, n)`, with `none` for `npos`. -/
def StringView.substr (str : List UInt8) (pos : Nat) (n : Option Nat) : Except Fault (List UInt8) :=
  if pos ≤ str.length then
    match n with
    | none => .ok (str.drop pos)
    | some n => .ok ((str.drop pos).take n)
  else .error (.outOfRange "basic_string_view::substr")

theorem StringView.find_some {str : List UInt8} {c : UInt8} {pos stop : Nat}
    (h : StringView.find str c pos = some stop) :
    pos ≤ stop ∧ stop < str.length ∧
      str.drop pos = (str.drop pos).take (stop - pos) ++ c :: str.drop (stop + 1) ∧
      c ∉ (str.drop pos).take (stop - pos) := by
  rw [StringView.find, Option.map_eq_some_iff] at h
  obtain ⟨i, hi, rfl⟩ := h
  obtain ⟨hlt, hc, hfirst⟩ := List.idxOf?_eq_some_iff.mp hi
  have hstop : pos + i < str.length := by
    rw [List.length_drop] at hlt
    omega
  refine ⟨Nat.le_add_right _ _, hstop, ?_, ?_⟩
  · rw [Nat.add_sub_cancel_left]
    conv_lhs => rw [← List.take_append_drop i (str.drop pos), List.drop_eq_getElem_cons hlt, hc]
    rw [List.drop_drop, Nat.add_assoc]
  · rw [Nat.add_sub_cancel_left, List.mem_take_iff_getElem]
    rintro ⟨j, hj, hcj⟩
    exact hfirst j (by omega) hcj

theorem StringView.find_none {str : List UInt8} {c : UInt8} {pos : Nat}
    (h : StringView.find str c pos = none) : c ∉ str.drop pos := by
  rw [StringView.find, Option.map_eq_none_iff, List.idxOf?_eq_none_iff] at h
  exact h

/-- The loop of `Tokenize`, from `start` on. -/
def tokenizeFrom (str : List UInt8) (sep : UInt8) (keepEmpty : Bool) (start : Nat)
    (tokens : List (List UInt8)) : Except Fault (List (List UInt8)) :=
  match h : StringView.find str sep start with
  | some stop =>
    if keepEmpty ∨ start < stop then
      match StringView.substr str start (some (stop - start)) with
      | .ok token => tokenizeFrom str sep keepEmpty (stop + 1) (tokens ++ [token])
      | .error e => .error e
    else tokenizeFrom str sep keepEmpty (stop + 1) tokens
  | none =>
    if keepEmpty ∨ start < str.length then
      match StringView.substr str start none with
      | .ok token => .ok (tokens ++ [token])
      | .error e => .error e
    else .ok tokens
termination_by str.length - start
decreasing_by
  all_goals
    have hstop := StringView.find_some h
    omega

/-- `Warhead::Tokenize`. -/
def tokenize (str : List UInt8) (sep : UInt8) (keepEmpty : Bool) :
    Except Fault (List (List UInt8)) :=
  tokenizeFrom str sep keepEmpty 0 []

/-- The parts of a text between its separators, all of them or those that are not empty. -/
def parts (str : List UInt8) (sep : UInt8) (keepEmpty : Bool) : List (List UInt8) :=
  if keepEmpty then str.splitOn sep else (str.splitOn sep).filter (· ≠ [])

theorem StringView.substr_of_le {str : List UInt8} {pos : Nat} (h : pos ≤ str.length) (n : Nat) :
    StringView.substr str pos (some n) = .ok ((str.drop pos).take n) ∧
      StringView.substr str pos none = .ok (str.drop pos) := by
  rw [StringView.substr, StringView.substr, if_pos h, if_pos h]
  exact ⟨rfl, rfl⟩

section Parts

variable {s rest : List UInt8} {sep : UInt8} {keepEmpty : Bool}

theorem parts_of_notMem (h : sep ∉ s) :
    parts s sep keepEmpty = if keepEmpty ∨ s ≠ [] then [s] else [] := by
  rw [parts, List.splitOn_eq_singleton h]
  cases keepEmpty <;> by_cases hs : s = [] <;> simp [hs]

theorem parts_append (h : sep ∉ s) :
    parts (s ++ sep :: rest) sep keepEmpty =
      (if keepEmpty ∨ s ≠ [] then [s] else []) ++ parts rest sep keepEmpty := by
  rw [parts, parts, List.splitOn_append_cons_self_of_not_mem h]
  cases keepEmpty <;> by_cases hs : s = [] <;> simp [hs]

end Parts

/-- What the loop tests instead of the emptiness of the part. -/
theorem take_ne_nil_iff {str : List UInt8} {start stop : Nat} (hle : start ≤ stop)
    (hlt : stop < str.length) : (str.drop start).take (stop - start) ≠ [] ↔ start < stop := by
  rw [← List.length_pos_iff, List.length_take, List.length_drop]
  omega

theorem drop_ne_nil_iff {str : List UInt8} {start : Nat} :
    str.drop start ≠ [] ↔ start < str.length := by
  rw [← List.length_pos_iff, List.length_drop]
  omega

/-- **The loop finds the parts of what is left**, from any position in the text. -/
theorem tokenizeFrom_eq {str : List UInt8} {start : Nat} (hstart : start ≤ str.length)
    (sep : UInt8) (keepEmpty : Bool) (tokens : List (List UInt8)) :
    tokenizeFrom str sep keepEmpty start tokens =
      .ok (tokens ++ parts (str.drop start) sep keepEmpty) := by
  fun_induction tokenizeFrom str sep keepEmpty start tokens with
  | case1 start tokens stop hfind hpart token htoken ih =>
    obtain ⟨hle, hlt, hsplit, hmem⟩ := StringView.find_some hfind
    rw [(StringView.substr_of_le hstart _).1, Except.ok.injEq] at htoken
    rw [ih (by omega), hsplit, parts_append hmem, if_pos (by rwa [take_ne_nil_iff hle hlt]),
      List.append_assoc, htoken]
  | case2 start tokens stop hfind hpart e he =>
    rw [(StringView.substr_of_le hstart _).1] at he
    cases he
  | case3 start tokens stop hfind hpart ih =>
    obtain ⟨hle, hlt, hsplit, hmem⟩ := StringView.find_some hfind
    rw [ih (by omega), hsplit, parts_append hmem, if_neg (by rwa [take_ne_nil_iff hle hlt]),
      List.nil_append]
  | case4 start tokens hfind hpart token htoken =>
    rw [(StringView.substr_of_le hstart 0).2, Except.ok.injEq] at htoken
    rw [parts_of_notMem (StringView.find_none hfind), if_pos (by rwa [drop_ne_nil_iff]), htoken]
  | case5 start tokens hfind hpart e he =>
    rw [(StringView.substr_of_le hstart 0).2] at he
    cases he
  | case6 start tokens hfind hpart =>
    rw [parts_of_notMem (StringView.find_none hfind), if_neg (by rwa [drop_ne_nil_iff]),
      List.append_nil]

theorem tokenize_eq (str : List UInt8) (sep : UInt8) (keepEmpty : Bool) :
    tokenize str sep keepEmpty = .ok (parts str sep keepEmpty) :=
  tokenizeFrom_eq (Nat.zero_le _) sep keepEmpty []

/-- **The tokens of a text.**  With the empty ones there is one more than separators, and they
make up the text; without them they are the others, in the same order. -/
theorem tokenize_spec (str : List UInt8) (sep : UInt8) :
    ∃ tokens, tokenize str sep true = .ok tokens ∧ tokens.length = str.count sep + 1 ∧
      (∀ token ∈ tokens, sep ∉ token) ∧ [sep].intercalate tokens = str ∧
      tokenize str sep false = .ok (tokens.filter (· ≠ [])) :=
  ⟨str.splitOn sep, tokenize_eq str sep true, length_splitOn sep str,
    fun _ h => notMem_of_mem_splitOn h, List.intercalate_splitOn sep, tokenize_eq str sep false⟩

end WarheadDiscord
