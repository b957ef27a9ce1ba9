import Mathlib.Data.List.Basic
import Mathlib.Data.List.TakeWhile
import Mathlib.Tactic.Common

/-!
# Format strings without arguments

`fmt::format` with a format and nothing else, as `parse_format_string` of fmt 8 reads it.  A brace
stands for itself when it is doubled, and a field has no argument to show.  A format of less
than 32 characters is read in one pass.  A longer one is read in two: `memchr` finds the next
`'{'`, and then the text in front of it is searched for `'}'`.

* `parseSimple_eq`, `parseTwoPass_eq`: **both passes are `unescape`**, with the same errors.
* `format_ok_iff`: what is shown has each of its braces doubled in the format.
* `format_eq_self_iff`: a text is its own format exactly when it has no braces.
-/

namespace WarheadDiscord.Fmt

inductive FormatError where
  | invalidFormatString
  | argumentNotFound
  | unmatchedBrace
  deriving DecidableEq, Repr

/-- `what()`. -/
def FormatError.what : FormatError → String
  | .invalidFormatString => "invalid format string"
  | .argumentNotFound => "argument not found"
  | .unmatchedBrace => "unmatched '\x7d' in format string"

/-! ### Fields -/

/-- `'0' <= c && c <= '9'`. -/
def isDigit (c : UInt8) : Bool := 48 ≤ c && c ≤ 57

def isNameStart (c : UInt8) : Bool := (97 ≤ c && c ≤ 122) || (65 ≤ c && c ≤ 90) || c == 95

/-- What `parse_arg_id` and the handlers behind it throw for the field that starts here: there
is no argument that it could name. -/
def fieldError : List UInt8 → FormatError
  | [] => .invalidFormatString
  | c :: rest =>
    -- `'}'` and `':'`
    if c = 125 ∨ c = 58 then .argumentNotFound
    else if isDigit c then
      match (if c = 48 then rest else rest.dropWhile isDigit).head? with
      | some d => if d = 125 ∨ d = 58 then .argumentNotFound else .invalidFormatString
      | none => .invalidFormatString
    else if isNameStart c then .argumentNotFound
    else .invalidFormatString

/-- `parse_replacement_field`, behind its `'{'`: what it adds, and where it ends. -/
def parseReplacementField : List UInt8 → Except FormatError (List UInt8 × List UInt8)
  | 123 :: rest => .ok ([123], rest)
  | rest => .error (fieldError rest)

/-! ### The two passes -/

/-- The loop for short formats.  `pending` is the text from `begin` to `p`. -/
def parseSimple (out pending : List UInt8) : List UInt8 → Except FormatError (List UInt8)
  | [] => .ok (out ++ pending)
  | 123 :: 123 :: rest => parseSimple (out ++ pending ++ [123]) [] rest
  | 123 :: rest => .error (fieldError rest)
  | 125 :: 125 :: rest => parseSimple (out ++ (pending ++ [125])) [] rest
  | 125 :: _ => .error .unmatchedBrace
  | c :: rest => parseSimple out (pending ++ [c]) rest

/-- `writer`, for the text in front of a field or of the end. -/
def write (out text : List UInt8) : Except FormatError (List UInt8) :=
  match h : text.dropWhile (· ≠ 125) with
  | 125 :: 125 :: rest => write (out ++ (text.takeWhile (· ≠ 125) ++ [125])) rest
  | _ :: _ => .error .unmatchedBrace
  | [] => .ok (out ++ text)
termination_by text.length
decreasing_by
  have hle := (List.dropWhile_sublist (l := text) (decide <| · ≠ 125)).length_le
  rw [h, List.length_cons, List.length_cons] at hle
  omega

/-- The loop for long formats. -/
def parseTwoPass (out text : List UInt8) : Except FormatError (List UInt8) :=
  match _h : text.dropWhile (· ≠ 123) with
  | [] => write out text
  | _ :: field =>
    match write out (text.takeWhile (· ≠ 123)) with
    | .error e => .error e
    | .ok out =>
      match _hf : parseReplacementField field with
      | .error e => .error e
      | .ok (shown, rest) => parseTwoPass (out ++ shown) rest
termination_by text.length
decreasing_by
  have hle := (List.dropWhile_sublist (l := text) (decide <| · ≠ 123)).length_le
  rw [_h, List.length_cons] at hle
  unfold parseReplacementField at _hf
  split at _hf
  · cases _hf
    rw [List.length_cons] at hle
    omega
  · cases _hf

def parseFormatString (text : List UInt8) : Except FormatError (List UInt8) :=
  if text.length < 32 then parseSimple [] [] text else parseTwoPass [] text

/-- `fmt::format(text)`. -/
def format (text : List UInt8) : Except FormatError (List UInt8) :=
  -- `"{}"` is looked for first
  if text = [123, 125] then .error .argumentNotFound else parseFormatString text

/-! ### What both are -/

/-- The text with each pair of braces as one, or the error at the first brace without its pair. -/
def unescape : List UInt8 → Except FormatError (List UInt8)
  | [] => .ok []
  | 123 :: 123 :: rest => (unescape rest).map (123 :: ·)
  | 123 :: rest => .error (fieldError rest)
  | 125 :: 125 :: rest => (unescape rest).map (125 :: ·)
  | 125 :: _ => .error .unmatchedBrace
  | c :: rest => (unescape rest).map (c :: ·)

theorem unescape_lbrace {field : List UInt8} : unescape (123 :: field) =
    (parseReplacementField field).bind fun r => (unescape r.2).map (r.1 ++ ·) := by
  unfold parseReplacementField
  split
  · rw [unescape]
    rfl
  · rw [unescape]
    · rfl
    · assumption

/-- **The loop for short formats.** -/
theorem parseSimple_eq : ∀ (text out pending : List UInt8),
    parseSimple out pending text = (unescape text).map (out ++ pending ++ ·) := by
  intro text
  fun_induction unescape text with
  | case1 => intro out pending; simp [parseSimple, Except.map]
  | case2 rest ih =>
    intro out pending
    rw [parseSimple, ih]
    cases unescape rest <;> simp [Except.map]
  | case3 rest h =>
    intro out pending
    rw [parseSimple]
    · rfl
    · assumption
  | case4 rest ih =>
    intro out pending
    rw [parseSimple, ih]
    cases unescape rest <;> simp [Except.map]
  | case5 rest h =>
    intro out pending
    rw [parseSimple]
    · rfl
    · assumption
  | case6 c rest h₁ h₂ h₃ h₄ ih =>
    intro out pending
    rw [parseSimple, ih]
    · cases unescape rest <;> simp [Except.map]
    all_goals assumption

/-! ### The two passes for long formats -/

section Equations

variable {c : UInt8} {rest : List UInt8}

theorem unescape_rbrace : unescape (125 :: 125 :: rest) = (unescape rest).map (125 :: ·) := by
  rw [unescape]

theorem unescape_lone (h : ∀ rest', rest ≠ 125 :: rest') :
    unescape (125 :: rest) = .error .unmatchedBrace := by
  rw [unescape]
  exact h

theorem unescape_text (h₁ : c ≠ 123) (h₂ : c ≠ 125) :
    unescape (c :: rest) = (unescape rest).map (c :: ·) := by
  rw [unescape]
  · exact fun _ hc _ => h₁ hc
  · exact h₁
  · exact fun _ hc _ => h₂ hc
  · exact h₂

end Equations

theorem unescape_append : ∀ (text rest : List UInt8), 123 ∉ text → 125 ∉ text →
    unescape (text ++ rest) = (unescape rest).map (text ++ ·) := by
  intro text rest
  induction text with
  | nil =>
    intro _ _
    rw [List.nil_append]
    cases unescape rest <;> rfl
  | cons c text ih =>
    intro h₁ h₂
    rw [List.mem_cons, not_or] at h₁ h₂
    rw [List.cons_append, unescape_text (Ne.symm h₁.1) (Ne.symm h₂.1), ih h₁.2 h₂.2]
    cases unescape rest <;> rfl

/-- A field ends the text in front of it, also a brace there that has no pair. -/
theorem unescape_append_field (field : List UInt8) : ∀ (text : List UInt8), 123 ∉ text →
    unescape (text ++ 123 :: field) = (unescape text).bind fun shown =>
      (unescape (123 :: field)).map (shown ++ ·) := by
  intro text
  generalize hf : (123 :: field : List UInt8) = f
  fun_induction unescape text with
  | case1 =>
    intro _
    rw [List.nil_append]
    cases unescape f <;> rfl
  | case2 rest ih => intro h; simp at h
  | case3 rest h => intro h; simp at h
  | case4 rest ih =>
    intro h
    rw [List.cons_append, List.cons_append, unescape_rbrace, ih (by simpa using h)]
    cases unescape rest with
    | error e => rfl
    | ok shown => cases unescape f <;> rfl
  | case5 rest hrest =>
    intro h
    rw [List.cons_append, unescape_lone]
    · rfl
    · intro rest' heq
      cases rest with
      | nil =>
        rw [← hf] at heq
        cases heq
      | cons d rest => exact hrest rest (by rw [(List.cons.inj heq).1])
  | case6 c rest h₁ h₂ h₃ h₄ ih =>
    intro h
    rw [List.mem_cons, not_or] at h
    rw [List.cons_append, unescape_text h₂ h₄, ih h.2]
    cases unescape rest with
    | error e => rfl
    | ok shown => cases unescape f <;> rfl

theorem map_ok {f : List UInt8 → List UInt8} {x : Except FormatError (List UInt8)}
    {text : List UInt8} (h : x.map f = .ok text) : ∃ shown, x = .ok shown ∧ f shown = text := by
  cases x with
  | error e => cases h
  | ok shown => exact ⟨shown, rfl, Except.ok.inj h⟩

theorem mem_takeWhile_ne {c : UInt8} {text : List UInt8} : c ∉ text.takeWhile (· ≠ c) := by
  intro h
  have hne := List.mem_takeWhile_imp h
  simp at hne

theorem dropWhile_ne_cons {c d : UInt8} {text rest : List UInt8}
    (h : text.dropWhile (· ≠ c) = d :: rest) : d = c ∧ text = text.takeWhile (· ≠ c) ++ c :: rest := by
  have hd : d = c := by
    have hne := List.head_dropWhile_not (p := fun x => decide (x ≠ c)) (l := text) (by rw [h]; simp)
    simp only [h, List.head_cons] at hne
    simpa using hne
  refine ⟨hd, ?_⟩
  rw [← hd, ← h, hd]
  exact (List.takeWhile_append_dropWhile (p := fun x => decide (x ≠ c)) (l := text)).symm

theorem dropWhile_ne_nil {c : UInt8} {text : List UInt8} (h : text.dropWhile (· ≠ c) = []) :
    c ∉ text := by
  rw [List.dropWhile_eq_nil_iff] at h
  intro hc
  simpa using h c hc

/-- **The search for `'}'`** in text without the other brace. -/
theorem write_eq (out text : List UInt8) (h : 123 ∉ text) :
    write out text = (unescape text).map (out ++ ·) := by
  fun_induction write out text with
  | case1 out text rest hdrop ih =>
    obtain ⟨-, heq⟩ := dropWhile_ne_cons hdrop
    have hfirst : 123 ∉ text.takeWhile (· ≠ 125) :=
      fun hx => h (List.takeWhile_subset _ hx)
    rw [ih fun hx => h (by rw [heq]; simp [hx])]
    conv_rhs => rw [heq, unescape_append _ _ hfirst mem_takeWhile_ne, unescape_rbrace]
    cases unescape rest <;> simp [Except.map]
  | case2 out text d rest hrest hdrop =>
    obtain ⟨rfl, heq⟩ := dropWhile_ne_cons hdrop
    have hfirst : 123 ∉ text.takeWhile (· ≠ 125) :=
      fun hx => h (List.takeWhile_subset _ hx)
    rw [heq, unescape_append _ _ hfirst mem_takeWhile_ne, unescape_lone]
    · rfl
    · exact fun rest' hx => hrest rest' rfl hx
  | case3 out text hdrop =>
    have hall := unescape_append text [] h (dropWhile_ne_nil hdrop)
    rw [List.append_nil] at hall
    rw [hall]
    simp [unescape, Except.map]

/-- A long format up to its next field, the error of which comes last. -/
theorem unescape_of_field {d : UInt8} {text field : List UInt8}
    (h : text.dropWhile (· ≠ 123) = d :: field) :
    unescape text = (unescape (text.takeWhile (· ≠ 123))).bind fun before =>
      (parseReplacementField field).bind fun r => (unescape r.2).map (before ++ r.1 ++ ·) := by
  obtain ⟨rfl, heq⟩ := dropWhile_ne_cons h
  conv_lhs => rw [heq, unescape_append_field _ _ mem_takeWhile_ne, unescape_lbrace]
  cases unescape (text.takeWhile (· ≠ 123)) with
  | error e => rfl
  | ok before =>
    cases parseReplacementField field with
    | error e => rfl
    | ok r => cases hr : unescape r.2 <;> simp [Except.bind, Except.map, hr]

/-- **The loop for long formats.** -/
theorem parseTwoPass_eq (out text : List UInt8) :
    parseTwoPass out text = (unescape text).map (out ++ ·) := by
  fun_induction parseTwoPass out text with
  | case1 out text hdrop => exact write_eq out text (dropWhile_ne_nil hdrop)
  | case2 out text d field hdrop e hwrite =>
    rw [write_eq _ _ mem_takeWhile_ne] at hwrite
    rw [unescape_of_field hdrop]
    cases hb : unescape (text.takeWhile (· ≠ 123)) with
    | error e' => rw [hb] at hwrite; cases hwrite; rfl
    | ok before => rw [hb] at hwrite; cases hwrite
  | case3 out text d field hdrop out' hwrite e hfield =>
    rw [write_eq _ _ mem_takeWhile_ne] at hwrite
    obtain ⟨before, hb, -⟩ := map_ok hwrite
    rw [unescape_of_field hdrop, hb, hfield]
    rfl
  | case4 out text d field hdrop out' hwrite shown rest hfield ih =>
    rw [write_eq _ _ mem_takeWhile_ne] at hwrite
    obtain ⟨before, hb, rfl⟩ := map_ok hwrite
    rw [ih, unescape_of_field hdrop, hb, hfield]
    cases hr : unescape rest <;> simp [Except.bind, Except.map, hr]

/-- **Both passes are one.** -/
theorem format_eq (text : List UInt8) : format text = unescape text := by
  rw [format]
  by_cases h : text = [123, 125]
  · rw [if_pos h, h]
    decide
  · rw [if_neg h, parseFormatString]
    by_cases hlen : text.length < 32
    · rw [if_pos hlen, parseSimple_eq]
      cases unescape text <;> rfl
    · rw [if_neg hlen, parseTwoPass_eq]
      cases unescape text <;> rfl

/-! ### Texts with braces -/

/-- The format that shows a text: each brace is doubled. -/
def escape (text : List UInt8) : List UInt8 :=
  text.flatMap fun c => if c = 123 ∨ c = 125 then [c, c] else [c]

theorem unescape_escape (text : List UInt8) : unescape (escape text) = .ok text := by
  induction text with
  | nil => rfl
  | cons c text ih =>
    rw [escape, List.flatMap_cons, ← escape]
    by_cases hl : c = 123
    · subst hl
      rw [if_pos (.inl rfl), List.cons_append, List.singleton_append, unescape, ih]
      rfl
    · by_cases hr : c = 125
      · subst hr
        rw [if_pos (.inr rfl), List.cons_append, List.singleton_append, unescape_rbrace, ih]
        rfl
      · rw [if_neg (not_or.mpr ⟨hl, hr⟩), List.singleton_append, unescape_text hl hr, ih]
        rfl

theorem escape_of_unescape : ∀ (text shown : List UInt8), unescape text = .ok shown →
    text = escape shown := by
  intro text
  fun_induction unescape text with
  | case1 => intro shown h; cases h; rfl
  | case2 rest ih | case4 rest ih =>
    intro shown h
    obtain ⟨shown', hs, rfl⟩ := map_ok h
    rw [ih shown' hs]
    rfl
  | case3 rest _ | case5 rest _ => intro shown h; cases h
  | case6 c rest _ hl _ hr ih =>
    intro shown h
    obtain ⟨shown', hs, rfl⟩ := map_ok h
    rw [escape, List.flatMap_cons, if_neg (not_or.mpr ⟨hl, hr⟩), ← escape, ← ih shown' hs]
    rfl

/-- **What a format shows.** -/
theorem format_ok_iff {text shown : List UInt8} :
    format text = .ok shown ↔ text = escape shown := by
  rw [format_eq]
  exact ⟨escape_of_unescape text shown, fun h => h ▸ unescape_escape shown⟩

theorem escape_length (text : List UInt8) :
    (escape text).length = text.length + text.countP fun c => c = 123 ∨ c = 125 := by
  induction text with
  | nil => rfl
  | cons c text ih =>
    rw [escape, List.flatMap_cons, ← escape, List.length_append, ih, List.countP_cons,
      List.length_cons]
    by_cases hc : c = 123 ∨ c = 125
    · rw [if_pos hc, if_pos (decide_eq_true hc), List.length_cons, List.length_singleton]
      omega
    · rw [if_neg hc, if_neg (by simpa using hc), List.length_singleton]
      omega

/-- **A text is its own format** exactly when it has no braces. -/
theorem format_eq_self_iff (text : List UInt8) :
    format text = .ok text ↔ 123 ∉ text ∧ 125 ∉ text := by
  rw [format_ok_iff]
  constructor
  · intro h
    have hlen := escape_length text
    rw [← h] at hlen
    have hnone := List.countP_eq_zero.mp (Nat.add_eq_left.mp hlen.symm)
    exact ⟨fun hl => hnone 123 hl rfl, fun hr => hnone 125 hr rfl⟩
  · rintro ⟨hl, hr⟩
    have hsingle : escape text = text.flatMap fun c => [c] :=
      List.flatMap_congr fun c hc => if_neg (by rintro (rfl | rfl) <;> contradiction)
    rw [hsingle, List.flatMap_singleton']

end WarheadDiscord.Fmt
