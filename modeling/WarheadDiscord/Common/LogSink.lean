import WarheadDiscord.Common.Config
import WarheadDiscord.Lib.Lines

/-!
# The output of a child process in the log

`WHLogSink` of `StartProcess.cpp`.  `boost::iostreams` is not part of the source: that its
`copy` reads the output in blocks, and gives what is left of a block to the sink until nothing is
left, is assumed in `writeAll` and `copy`.  The messages are what the callback of the sink gets;
`LOG_INFO`, which it calls, takes each of them for a format (`Common.LogMessages`).

* `writeAll_eq`: a block is told line by line.
* `logSink_spec`: **what the callback gets**, however the output comes in blocks.
-/

namespace WarheadDiscord.LogSink

open Lib

open Config (Str)

/-- `'\\r'` and `'\\n'`. -/
def isLineEnd (c : UInt8) : Bool := c == 13 || c == 10

/-- `WHLogSink::write`: what the callback gets, and how much is processed. -/
def write (str : Str) : List Str × Nat :=
  match str.findIdx? isLineEnd with
  | none => (if str.isEmpty then [] else [str], str.length)
  | some lineEnd => (if (str.take lineEnd).isEmpty then [] else [str.take lineEnd], lineEnd + 1)

/-- The sink is called until the block is processed.  The fuel is enough when it is the length
of the block. -/
def writeAll : Nat → Str → List Str
  | _, [] => []
  | 0, _ :: _ => []
  | fuel + 1, c :: str =>
    (write (c :: str)).1 ++ writeAll fuel ((c :: str).drop (write (c :: str)).2)

/-- `copy(outStream, outInfo)`, for the blocks that are read. -/
def copy (blocks : List Str) : List Str := blocks.flatMap fun block => writeAll block.length block

/-- One call of the sink. -/
theorem write_cases (str : Str) :
    ((∀ c ∈ str, isLineEnd c = false) ∧ write str = (flush str, str.length)) ∨
      ∃ line c rest, str = line ++ c :: rest ∧ (∀ c ∈ line, isLineEnd c = false) ∧
        isLineEnd c = true ∧ write str = (flush line, line.length + 1) := by
  rw [write]
  cases h : str.findIdx? isLineEnd with
  | none => exact Or.inl ⟨List.findIdx?_eq_none_iff.mp h, rfl⟩
  | some i =>
    obtain ⟨hi, hend, hbefore⟩ := List.findIdx?_eq_some_iff_getElem.mp h
    refine Or.inr ⟨str.take i, str[i], str.drop (i + 1), ?_, fun c hc => ?_, hend, ?_⟩
    · rw [← List.drop_eq_getElem_cons hi, List.take_append_drop]
    · obtain ⟨j, hj, rfl⟩ := List.mem_take_iff_getElem.mp hc
      simpa using hbefore j (by omega)
    · rw [List.length_take, Nat.min_eq_left (by omega)]
      rfl

/-- **A block is told line by line.** -/
theorem writeAll_eq (fuel : Nat) (str : Str) (h : str.length ≤ fuel) :
    writeAll fuel str = lines isLineEnd str := by
  induction fuel generalizing str with
  | zero =>
    rw [List.eq_nil_of_length_eq_zero (Nat.le_zero.mp h)]
    rfl
  | succ fuel ih =>
    cases str with
    | nil => rfl
    | cons c str =>
      rw [writeAll, lines]
      rcases write_cases (c :: str) with ⟨hall, hw⟩ | ⟨line, e, rest, heq, hline, he, hw⟩
      · have hlines := linesFrom_append_of_forall hall [] []
        rw [List.append_nil, List.nil_append, linesFrom] at hlines
        rw [hw, hlines, List.drop_length, writeAll, List.append_nil]
      · have hlen := congrArg List.length heq
        rw [List.length_append, List.length_cons, List.length_cons] at hlen
        rw [List.length_cons] at h
        have hdrop : (line ++ e :: rest).drop (line.length + 1) = rest := by
          rw [List.drop_append]
          simp
        rw [hw, heq, hdrop, ih rest (by omega), linesFrom_append_of_forall hline, List.nil_append,
          linesFrom, if_pos he]
        rfl

theorem copy_eq (blocks : List Str) : copy blocks = blocks.flatMap (lines isLineEnd) := by
  rw [copy]
  congr 1
  funext block
  exact writeAll_eq _ block (Nat.le_refl _)

/-- **What the callback gets.**  The messages are not empty and hold no line end, and together they
have all other characters of the output in their order.  They are the lines of the output
exactly if no block ends inside a line; each block that does makes one message more. -/
theorem logSink_spec (blocks : List Str) :
    (∀ message ∈ copy blocks, message ≠ [] ∧ ∀ c ∈ message, isLineEnd c = false) ∧
      (copy blocks).flatten = blocks.flatten.filter (!isLineEnd ·) ∧
      (copy blocks).length =
        (lines isLineEnd blocks.flatten).length + tears isLineEnd blocks ∧
      (copy blocks = lines isLineEnd blocks.flatten ↔ tears isLineEnd blocks = 0) := by
  rw [copy_eq]
  refine ⟨fun message hmem => ?_, ?_, length_flatMap_lines isLineEnd blocks,
    flatMap_lines_eq_iff isLineEnd blocks⟩
  · obtain ⟨block, -, hmem⟩ := List.mem_flatMap.mp hmem
    exact of_mem_linesFrom (fun c hc => absurd hc List.not_mem_nil) hmem
  · induction blocks with
    | nil => rfl
    | cons block blocks ih =>
      rw [List.flatMap_cons, List.flatten_append, ih, lines, flatten_linesFrom, List.flatten_cons,
        List.filter_append]
      rfl

/-- `ab`, a line end, and `cd` in three ways of cutting. -/
example : copy [[97, 98, 10, 99, 100]] = [[97, 98], [99, 100]] ∧
    copy [[97, 98], [13, 10, 99, 100]] = [[97, 98], [99, 100]] ∧
    copy [[97, 98, 10, 99], [100]] = [[97, 98], [99], [100]] := by decide

end WarheadDiscord.LogSink
