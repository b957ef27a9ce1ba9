import WarheadDiscord.Common.StringConvert
import WarheadDiscord.Common.Timer
import WarheadDiscord.Lib.Split
import WarheadDiscord.Lib.Units

/-!
# `ToTimeString`

The text of a duration, with its units from the largest one on and without those that are zero.

* `toTimeString`: the source.  `TimeUnit.all`, `timeUnits_split`: its units are those of the number.
* `toTimeString_shortText`, `toTimeString_numeric`: the text as a list of parts.
* `shortText_spec`: the short text is read back.
* `numeric_ne_iff`: when two durations have different numeric texts.
-/

namespace WarheadDiscord.Time

open Config Lib OptionCache

/-! ### The source -/

/-- `enum class TimeFormat`. -/
inductive TimeFormat where
  | fullText
  | shortText
  | numeric
  deriving DecidableEq, Repr

/-- The units, with the texts that `ToTimeString` has for them. -/
inductive TimeUnit where
  | days
  | hours
  | minutes
  | secs
  | millisecs
  | microsecs
  deriving DecidableEq, Repr

/-- In the order of the statements. -/
def TimeUnit.all : List TimeUnit := [.days, .hours, .minutes, .secs, .millisecs, .microsecs]

def TimeUnits.get (units : TimeUnits) : TimeUnit → UInt64
  | .days => units.days
  | .hours => units.hours
  | .minutes => units.minutes
  | .secs => units.secs
  | .millisecs => units.millisecs
  | .microsecs => units.microsecs

def TimeUnit.shortText : TimeUnit → Str
  | .days => ofString "d "
  | .hours => ofString "h "
  | .minutes => ofString "m "
  | .secs => ofString "s "
  | .millisecs => ofString "ms "
  | .microsecs => ofString "us "

/-- For the number one. -/
def TimeUnit.fullText1 : TimeUnit → Str
  | .days => ofString " Day "
  | .hours => ofString " Hour "
  | .minutes => ofString " Minute "
  | .secs => ofString " Second "
  | .millisecs => ofString " Millisecond "
  | .microsecs => ofString " Microsecond "

def TimeUnit.fullText : TimeUnit → Str
  | .days => ofString " Days "
  | .hours => ofString " Hours "
  | .minutes => ofString " Minutes "
  | .secs => ofString " Seconds "
  | .millisecs => ofString " Milliseconds "
  | .microsecs => ofString " Microseconds "

/-- The variables that the lambdas of `ToTimeString` capture by reference. -/
structure Out where
  out : Str := []
  count : UInt8 := 0
  isFirst : Bool := false

/-- `{:02}`. -/
def padded (n : Nat) : Str :=
  if (natText n).length < 2 then 48 :: natText n else natText n

def Out.addOutNumerlic (s : Out) (outCount : UInt8) (time : UInt64) : Out :=
  if outCount ≤ s.count then s
  else if ¬ s.isFirst then
    { out := s.out ++ (natText time.toNat ++ [58]), count := s.count + 1, isFirst := true }
  else { s with out := s.out ++ (padded time.toNat ++ [58]), count := s.count + 1 }

def Out.addOut (s : Out) (timeFormat : TimeFormat) (outCount : UInt8) (unit : TimeUnit)
    (timeCount : UInt32) : Out :=
  if outCount ≤ s.count then s
  else
    let text :=
      match timeFormat with
      | .shortText => unit.shortText
      | .fullText => if timeCount = 1 then unit.fullText1 else unit.fullText
      | .numeric => ofString "<Unknown time format>"
    { s with out := s.out ++ (natText timeCount.toNat ++ text), count := s.count + 1 }

/-- `String::TrimRightInPlace`. -/
def trimRightInPlace (s : Str) : Str := s.rdropWhile isspace

def toTimeString (durationTime : Int64) (outCount : UInt8) (timeFormat : TimeFormat) : Str :=
  let units := timeUnits durationTime
  if timeFormat = .numeric then
    let s := TimeUnit.all.foldl (fun (s : Out) unit =>
      if units.get unit ≠ 0 then s.addOutNumerlic outCount (units.get unit) else s) {}
    -- The last colon is deleted.
    s.out.dropLast
  else
    let s := TimeUnit.all.foldl (fun (s : Out) unit =>
      if units.get unit ≠ 0 then s.addOut timeFormat outCount unit (units.get unit).toUInt32
      else s) {}
    trimRightInPlace s.out

/-! ### Units -/

/-- The microseconds of a unit. -/
def TimeUnit.size : TimeUnit → Nat
  | .days => 86400000000
  | .hours => 3600000000
  | .minutes => 60000000
  | .secs => 1000000
  | .millisecs => 1000
  | .microsecs => 1

/-- The units of a number of microseconds, and how many there are of each. -/
def amounts (n : Nat) : List (TimeUnit × Nat) := Units.split TimeUnit.size TimeUnit.all n

/-- The number of microseconds. -/
def micros (durationTime : Int64) : Nat := durationTime.toInt.toNat

theorem micros_eq {durationTime : Int64} (h : 0 ≤ durationTime) :
    micros durationTime = durationTime.toUInt64.toNat ∧
      (micros durationTime : Int) = durationTime.toInt := by
  have hcount := toUInt64_toNat h
  rw [micros]
  omega

/-- **The numbers that `ToTimeString` computes** are those of the units. -/
theorem timeUnits_split {durationTime : Int64} (h : 0 ≤ durationTime) :
    TimeUnit.all.map (fun unit => (unit, ((timeUnits durationTime).get unit).toNat)) =
      amounts (micros durationTime) := by
  rw [(micros_eq h).1]
  obtain ⟨hmicro, hms, hs, hm, hh, hd⟩ := timeUnits_toNat h
  simp only [TimeUnit.all, amounts, Units.split, List.map_cons, List.map_nil, TimeUnits.get,
    TimeUnit.size, hmicro, hms, hs, hm, hh, hd, List.cons.injEq, Prod.mk.injEq, true_and, and_true]
  omega

theorem timeUnits_lt {durationTime : Int64} (h : 0 ≤ durationTime) (unit : TimeUnit) :
    ((timeUnits durationTime).get unit).toNat < 2 ^ 32 := by
  obtain ⟨hmicro, hms, hs, hm, hh, hd⟩ := timeUnits_toNat h
  have hcount := toUInt64_toNat h
  have hlt := durationTime.toInt_lt
  cases unit <;> simp only [TimeUnits.get, hmicro, hms, hs, hm, hh, hd] <;> omega

/-! ### Parts of the text -/

section Parts

variable {get : TimeUnit → UInt64} {outCount : UInt8}

theorem sub_count {count : UInt8} (h : ¬ outCount ≤ count) :
    outCount.toNat - count.toNat = (outCount.toNat - (count + 1).toNat) + 1 := by
  have hlt : count.toNat < outCount.toNat := UInt8.lt_iff_toNat_lt.mp (UInt8.not_le.mp h)
  have hsize := outCount.toNat_lt
  rw [UInt8.toNat_add, UInt8.toNat_one, Nat.mod_eq_of_lt (by omega)]
  omega

theorem sub_count_of_le {count : UInt8} (h : outCount ≤ count) :
    outCount.toNat - count.toNat = 0 := Nat.sub_eq_zero_of_le (UInt8.le_iff_toNat_le.mp h)

/-- The unit and how many there are. -/
def counted (get : TimeUnit → UInt64) (unit : TimeUnit) : TimeUnit × Nat := (unit, (get unit).toNat)

theorem shown_map (k : Nat) (units : List TimeUnit) :
    Units.shown k (units.map (counted get)) =
      ((units.filter fun unit => get unit ≠ 0).take k).map (counted get) := by
  have hfilter : (fun p : TimeUnit × Nat => decide (p.2 ≠ 0)) ∘ counted get =
      fun unit => decide (get unit ≠ 0) := by
    funext unit
    rw [Function.comp, counted, decide_eq_decide, Ne, Ne, ← UInt64.toNat_zero, UInt64.toNat_inj]
  rw [Units.shown, Units.nonzero, List.filter_map, hfilter, List.map_take]

/-- The name of a unit in the short text. -/
def TimeUnit.name : TimeUnit → Str
  | .days => ofString "d"
  | .hours => ofString "h"
  | .minutes => ofString "m"
  | .secs => ofString "s"
  | .millisecs => ofString "ms"
  | .microsecs => ofString "us"

/-- A part of the short text. -/
def shortPart (p : TimeUnit × Nat) : Str := natText p.2 ++ p.1.name

theorem shortText_eq (unit : TimeUnit) : unit.shortText = unit.name ++ [32] := by
  cases unit <;> simp only [TimeUnit.shortText, TimeUnit.name, ofString_eq] <;> decide

theorem name_spec (unit : TimeUnit) :
    (∀ c ∈ unit.name, isDigit c = false ∧ isspace c = false) ∧ unit.name ≠ [] ∧
      TimeUnit.all.find? (fun other => other.name = unit.name) = some unit := by
  have hletters : unit.name.all (fun c => !isDigit c && !isspace c) = true := by
    cases unit <;> simp only [TimeUnit.name, ofString_eq] <;> decide
  refine ⟨fun c hc => ?_, ?_, ?_⟩
  · simpa using List.all_eq_true.mp hletters c hc
  · cases unit <;> simp only [TimeUnit.name, ofString_eq] <;> decide
  · cases unit <;> simp only [TimeUnit.name, TimeUnit.all, ofString_eq] <;> decide

theorem isspace_of_isDigit {c : UInt8} (h : isDigit c = true) : isspace c = false := by
  rw [isDigit, Bool.and_eq_true, decide_eq_true_eq, decide_eq_true_eq] at h
  have hlo : 48 ≤ c.toNat := UInt8.le_iff_toNat_le.mp h.1
  rw [isspace, Bool.or_eq_false_iff]
  constructor
  · rw [beq_eq_false_iff_ne]
    rintro rfl
    exact absurd hlo (by decide)
  · rw [Bool.and_eq_false_iff]
    refine Or.inr (decide_eq_false fun hle => ?_)
    have hhi : c.toNat ≤ 13 := UInt8.le_iff_toNat_le.mp hle
    omega

theorem shortPart_spec (p : TimeUnit × Nat) :
    32 ∉ shortPart p ∧ shortPart p ≠ [] ∧
      ∃ front c, shortPart p = front ++ [c] ∧ isspace c = false := by
  obtain ⟨hletters, hne, -⟩ := name_spec p.1
  refine ⟨fun hspace => ?_, ?_, ?_⟩
  · rcases List.mem_append.mp hspace with hdigit | hletter
    · exact absurd (isspace_of_isDigit (natText_digit hdigit)) (by decide)
    · exact absurd (hletters 32 hletter).2 (by decide)
  · exact List.append_ne_nil_of_right_ne_nil _ hne
  · rcases p.1.name.eq_nil_or_concat' with hnil | ⟨front, c, hname⟩
    · exact absurd hnil hne
    · refine ⟨natText p.2 ++ front, c, ?_, (hletters c (by rw [hname]; simp)).2⟩
      rw [shortPart, hname, List.append_assoc]

theorem foldl_addOut (outCount : UInt8) (hsmall : ∀ unit, (get unit).toNat < 2 ^ 32)
    (units : List TimeUnit) (s : Out) :
    (units.foldl (fun (s : Out) unit => s.addOut .shortText outCount unit (get unit).toUInt32)
      s).out = s.out ++
        (((units.take (outCount.toNat - s.count.toNat)).map (counted get)).map shortPart).flatMap
          (· ++ [32]) := by
  induction units generalizing s with
  | nil => simp
  | cons unit units ih =>
    rw [List.foldl_cons, ih]
    by_cases hfull : outCount ≤ s.count
    · rw [Out.addOut, if_pos hfull, sub_count_of_le hfull, List.take_zero, List.take_zero]
    · have hnat : (get unit).toUInt32.toNat = (get unit).toNat := by
        rw [UInt64.toNat_toUInt32, Nat.mod_eq_of_lt (hsmall unit)]
      rw [Out.addOut, if_neg hfull, sub_count hfull, List.take_succ_cons, List.map_cons,
        List.map_cons, List.flatMap_cons, hnat, shortPart, List.append_assoc (natText _),
        ← shortText_eq]
      exact List.append_assoc _ _ _

/-- The parts of the numeric text.  Those behind another one have at least two digits. -/
def numericParts (isFirst : Bool) : List Nat → List Str
  | [] => []
  | n :: ns => (if isFirst then padded n else natText n) :: numericParts true ns

theorem foldl_addOutNumerlic (get : TimeUnit → UInt64) (outCount : UInt8) (units : List TimeUnit)
    (s : Out) :
    (units.foldl (fun (s : Out) unit => s.addOutNumerlic outCount (get unit)) s).out =
      s.out ++ (numericParts s.isFirst ((units.take (outCount.toNat - s.count.toNat)).map
        fun unit => (get unit).toNat)).flatMap (· ++ [58]) := by
  induction units generalizing s with
  | nil => simp [numericParts]
  | cons unit units ih =>
    rw [List.foldl_cons, ih]
    by_cases hfull : outCount ≤ s.count
    · rw [Out.addOutNumerlic, if_pos hfull, sub_count_of_le hfull, List.take_zero, List.take_zero]
    · rw [Out.addOutNumerlic, if_neg hfull, sub_count hfull, List.take_succ_cons, List.map_cons,
        numericParts, List.flatMap_cons]
      cases hfirst : s.isFirst with
      | false =>
        rw [if_pos (by decide), if_neg (by decide)]
        exact List.append_assoc _ _ _
      | true =>
        rw [if_neg (by decide), if_pos rfl]
        exact List.append_assoc _ _ _

theorem dropLast_parts (parts : List Str) :
    (parts.flatMap (· ++ [58])).dropLast = [58].intercalate parts := by
  rcases parts.eq_nil_or_concat' with rfl | ⟨front, last, rfl⟩
  · rfl
  · rw [intercalate_concat, List.flatMap_append, List.flatMap_singleton, ← List.append_assoc,
      List.dropLast_concat]

theorem trim_parts {parts : List Str}
    (h : ∀ part ∈ parts, ∃ front c, part = front ++ [c] ∧ isspace c = false) :
    trimRightInPlace (parts.flatMap (· ++ [32])) = [32].intercalate parts := by
  rcases parts.eq_nil_or_concat' with rfl | ⟨front, last, rfl⟩
  · rfl
  · obtain ⟨letters, c, rfl, hc⟩ := h last (by simp)
    rw [intercalate_concat, List.flatMap_append, List.flatMap_singleton, trimRightInPlace,
      ← List.append_assoc, List.rdropWhile_concat_pos _ _ _ (by decide), ← List.append_assoc,
      List.rdropWhile_concat_neg _ _ _ (by rw [hc]; decide)]

end Parts

/-! ### The texts -/

section Texts

variable {durationTime : Int64} (outCount : UInt8)

theorem shown_amounts (h : 0 ≤ durationTime) :
    Units.shown outCount.toNat (amounts (micros durationTime)) =
      ((TimeUnit.all.filter fun unit => (timeUnits durationTime).get unit ≠ 0).take
        outCount.toNat).map (counted (timeUnits durationTime).get) := by
  rw [← shown_map, ← timeUnits_split h]
  rfl

theorem toTimeString_shortText (h : 0 ≤ durationTime) :
    toTimeString durationTime outCount .shortText =
      [32].intercalate
        ((Units.shown outCount.toNat (amounts (micros durationTime))).map shortPart) := by
  have hfold := foldl_addOut outCount (timeUnits_lt h)
    (TimeUnit.all.filter fun unit => (timeUnits durationTime).get unit ≠ 0) {}
  rw [List.foldl_filter] at hfold
  rw [toTimeString, if_neg (by decide), shown_amounts outCount h]
  simp only [decide_eq_true_eq] at hfold
  dsimp only
  rw [hfold, UInt8.toNat_zero, Nat.sub_zero, List.nil_append]
  refine trim_parts fun part hpart => ?_
  obtain ⟨p, -, rfl⟩ := List.mem_map.mp hpart
  exact (shortPart_spec p).2.2

theorem toTimeString_numeric (h : 0 ≤ durationTime) :
    toTimeString durationTime outCount .numeric =
      [58].intercalate (numericParts false
        ((Units.shown outCount.toNat (amounts (micros durationTime))).map Prod.snd)) := by
  have hfold := foldl_addOutNumerlic (timeUnits durationTime).get outCount
    (TimeUnit.all.filter fun unit => (timeUnits durationTime).get unit ≠ 0) {}
  rw [List.foldl_filter] at hfold
  rw [toTimeString, if_pos rfl, shown_amounts outCount h]
  simp only [decide_eq_true_eq] at hfold
  dsimp only
  rw [hfold, UInt8.toNat_zero, Nat.sub_zero, List.nil_append, dropLast_parts, List.map_map]
  rfl

end Texts

/-! ### The short text -/

/-- A number, and the name of a unit behind it. -/
def readPart (part : Str) : Option (TimeUnit × Nat) := do
  let n ← natOfText (part.takeWhile isDigit)
  let unit ← TimeUnit.all.find? fun unit => unit.name = part.dropWhile isDigit
  some (unit, n)

/-- The units that a text names. -/
def readUnits (text : Str) : Option (List (TimeUnit × Nat)) :=
  ((text.splitOn 32).filter (· ≠ [])).mapM readPart

theorem readPart_shortPart (p : TimeUnit × Nat) : readPart (shortPart p) = some p := by
  obtain ⟨hletters, -, hfind⟩ := name_spec p.1
  have hdigits : ∀ c ∈ natText p.2, isDigit c = true := fun c hc => natText_digit hc
  have hname : p.1.name.takeWhile isDigit = [] ∧ p.1.name.dropWhile isDigit = p.1.name := by
    cases hcs : p.1.name with
    | nil => exact ⟨rfl, rfl⟩
    | cons c cs =>
      have hc : ¬ isDigit c = true := by
        rw [(hletters c (by rw [hcs]; exact List.mem_cons_self)).1]
        decide
      exact ⟨List.takeWhile_cons_of_neg hc, List.dropWhile_cons_of_neg hc⟩
  rw [readPart, shortPart, List.takeWhile_append_of_pos hdigits,
    List.dropWhile_append_of_pos hdigits, hname.1, hname.2, List.append_nil, natOfText_natText]
  dsimp only [bind, Option.bind]
  rw [hfind]

/-- **The units are read back.** -/
theorem readUnits_shortText {durationTime : Int64} (outCount : UInt8) (h : 0 ≤ durationTime) :
    readUnits (toTimeString durationTime outCount .shortText) =
      some (Units.shown outCount.toNat (amounts (micros durationTime))) := by
  have hparts : ∀ part ∈ (Units.shown outCount.toNat (amounts (micros durationTime))).map shortPart,
      32 ∉ part ∧ part ≠ [] := by
    intro part hpart
    obtain ⟨p, -, rfl⟩ := List.mem_map.mp hpart
    exact ⟨(shortPart_spec p).1, (shortPart_spec p).2.1⟩
  rw [readUnits, toTimeString_shortText outCount h, filter_splitOn_intercalate
    (fun part hpart => (hparts part hpart).1) fun part hpart => (hparts part hpart).2,
    List.mapM_map]
  have hread : readPart ∘ shortPart = fun p => pure (id p) := funext readPart_shortPart
  rw [hread, List.mapM_pure, List.map_id]
  rfl

theorem value_amounts (n : Nat) : Units.value TimeUnit.size (amounts n) = n := by
  have hsplit := Units.value_split TimeUnit.size TimeUnit.all n
  have hrest : Units.rest TimeUnit.size TimeUnit.all n = 0 := Nat.mod_one _
  rwa [hrest, Nat.add_zero] at hsplit

theorem size_pos (unit : TimeUnit) : 0 < unit.size := by
  cases unit <;> decide

theorem value_shown_amounts {outCount : UInt8} (hout : 6 ≤ outCount) (n : Nat) :
    Units.value TimeUnit.size (Units.shown outCount.toNat (amounts n)) = n := by
  have hroom : TimeUnit.all.length ≤ outCount.toNat := UInt8.le_iff_toNat_le.mp hout
  rw [amounts, Units.shown_of_length_le hroom, Units.value_nonzero, ← amounts, value_amounts]

/-- **The short text of a duration.**  It names the largest units that are not zero, as many as
there is room for.  Together they are at most the duration, and less than one of the last of them
is missing; with room for six they are the duration, and no other one has this text. -/
theorem shortText_spec (durationTime : Int64) (outCount : UInt8) (h : 0 ≤ durationTime) :
    ∃ units, readUnits (toTimeString durationTime outCount .shortText) = some units ∧
      units = Units.shown outCount.toNat (amounts (micros durationTime)) ∧
      Units.value TimeUnit.size units ≤ durationTime.toInt ∧
      (∀ p ∈ units.getLast?,
        durationTime.toInt - Units.value TimeUnit.size units < p.1.size) ∧
      (6 ≤ outCount → Units.value TimeUnit.size units = durationTime.toInt ∧
        ∀ other, 0 ≤ other → toTimeString other outCount .shortText =
          toTimeString durationTime outCount .shortText → other = durationTime) := by
  have hread := readUnits_shortText outCount h
  have hmicros := (micros_eq h).2
  have hpos : ∀ unit ∈ TimeUnit.all, 0 < unit.size := fun unit _ => size_pos unit
  obtain ⟨hle, hlast⟩ := Units.shown_spec hpos (micros durationTime) outCount.toNat
  rw [← amounts] at hle hlast
  refine ⟨_, hread, rfl, by omega, fun p hp => ?_, fun hout => ⟨?_, fun other hother htext => ?_⟩⟩
  · have hlt := hlast p hp
    omega
  · rw [value_shown_amounts hout, hmicros]
  · have hsame := readUnits_shortText outCount hother
    rw [htext, hread, Option.some.injEq] at hsame
    have hvalue := congrArg (Units.value TimeUnit.size) hsame
    rw [value_shown_amounts hout, value_shown_amounts hout] at hvalue
    rw [← Int64.toInt_inj, ← hmicros, ← (micros_eq hother).2, hvalue]

/-- A day, a second and three microseconds, with room for two units. -/
theorem shortText_spec_day :
    ∃ units, readUnits (toTimeString 86401000003 2 .shortText) = some units ∧
      units = Units.shown 2 (amounts (micros 86401000003)) ∧
      Units.value TimeUnit.size units ≤ (86401000003 : Int64).toInt := by
  obtain ⟨units, hread, hshown, hle, -⟩ := shortText_spec 86401000003 2 (by decide)
  exact ⟨units, hread, hshown, hle⟩

/-! ### The numeric text -/

/-- The numbers between the colons. -/
def readNumbers (text : Str) : Option (List Nat) :=
  ((text.splitOn 58).filter (· ≠ [])).mapM natOfText

/-- The numbers of the units that are not zero, from the largest unit on. -/
def numbers (durationTime : Int64) : List Nat :=
  (Units.nonzero (amounts (micros durationTime))).map Prod.snd

theorem natOfText_eq_some {s : Str} {n : Nat} (h : natOfText s = some n) :
    (s ≠ [] ∧ s.all isDigit) ∧ Nat.ofDigitChars 10 (s.map Char.ofUInt8) 0 = n := by
  rw [natOfText] at h
  by_cases hs : s ≠ [] ∧ s.all isDigit
  · rw [if_pos hs, Option.some.injEq] at h
    exact ⟨hs, h⟩
  · rw [if_neg hs] at h
    cases h

theorem natOfText_padded (n : Nat) : natOfText (padded n) = some n := by
  have hnat := natOfText_natText n
  rw [padded]
  by_cases hshort : (natText n).length < 2
  · obtain ⟨⟨-, hdigits⟩, hvalue⟩ := natOfText_eq_some hnat
    have hall : (48 :: natText n).all isDigit := by
      rw [List.all_cons, hdigits]
      rfl
    rw [if_pos hshort, natOfText, if_pos ⟨List.cons_ne_nil _ _, hall⟩, List.map_cons,
      Nat.ofDigitChars_cons]
    exact congrArg some hvalue
  · rw [if_neg hshort, hnat]

theorem part_of_natOfText {part : Str} {n : Nat} (h : natOfText part = some n) :
    58 ∉ part ∧ part ≠ [] := by
  obtain ⟨⟨hne, hdigits⟩, -⟩ := natOfText_eq_some h
  exact ⟨fun hcolon => absurd (List.all_eq_true.mp hdigits 58 hcolon) (by decide), hne⟩

theorem numericParts_spec (isFirst : Bool) (ns : List Nat) :
    (∀ part ∈ numericParts isFirst ns, 58 ∉ part ∧ part ≠ []) ∧
      (numericParts isFirst ns).mapM natOfText = some ns := by
  induction ns generalizing isFirst with
  | nil => exact ⟨fun part hpart => absurd hpart List.not_mem_nil, rfl⟩
  | cons n ns ih =>
    obtain ⟨hparts, hread⟩ := ih true
    have hfirst : natOfText (if isFirst then padded n else natText n) = some n := by
      cases isFirst with
      | false => exact natOfText_natText n
      | true => exact natOfText_padded n
    rw [numericParts]
    constructor
    · intro part hpart
      rcases List.mem_cons.mp hpart with rfl | hpart
      · exact part_of_natOfText hfirst
      · exact hparts part hpart
    · rw [List.mapM_cons, hfirst, hread]
      rfl

section Numeric

variable {durationTime : Int64} {outCount : UInt8}

theorem toTimeString_numbers (hout : 6 ≤ outCount) (h : 0 ≤ durationTime) :
    toTimeString durationTime outCount .numeric =
      [58].intercalate (numericParts false (numbers durationTime)) := by
  have hroom : TimeUnit.all.length ≤ outCount.toNat := UInt8.le_iff_toNat_le.mp hout
  rw [toTimeString_numeric outCount h, amounts, Units.shown_of_length_le hroom, numbers, amounts]

/-- **The numbers are read back**, and nothing else. -/
theorem readNumbers_numeric (hout : 6 ≤ outCount) (h : 0 ≤ durationTime) :
    readNumbers (toTimeString durationTime outCount .numeric) = some (numbers durationTime) := by
  obtain ⟨hparts, hread⟩ := numericParts_spec false (numbers durationTime)
  rw [readNumbers, toTimeString_numbers hout h, filter_splitOn_intercalate
    (fun part hpart => (hparts part hpart).1) fun part hpart => (hparts part hpart).2, hread]

end Numeric

/-- **When two durations have different numeric texts.**  Units that are zero are left out, so
the numbers of the other units must differ. -/
theorem numeric_ne_iff (d₁ d₂ : Int64) (outCount : UInt8) (h₁ : 0 ≤ d₁) (h₂ : 0 ≤ d₂)
    (hout : 6 ≤ outCount) :
    toTimeString d₁ outCount .numeric ≠ toTimeString d₂ outCount .numeric ↔
      numbers d₁ ≠ numbers d₂ := by
  apply not_congr
  constructor
  · intro htext
    have hread := readNumbers_numeric hout h₁
    rw [htext, readNumbers_numeric hout h₂, Option.some.injEq] at hread
    exact hread.symm
  · intro hnumbers
    rw [toTimeString_numbers hout h₁, toTimeString_numbers hout h₂, hnumbers]

theorem numeric_ne_iff_hour :
    toTimeString 3601000000 6 .numeric ≠ toTimeString 3602000000 6 .numeric :=
  (numeric_ne_iff 3601000000 3602000000 6 (by decide) (by decide) (by decide)).mpr (by decide)

/-- **A second and a minute have the same text.** -/
theorem numeric_second_minute :
    (1000000 : Int64) ≠ 60000000 ∧ toTimeString 1000000 6 .numeric = ofString "1" ∧
      toTimeString 60000000 6 .numeric = ofString "1" := by
  rw [ofString_eq]
  decide

end WarheadDiscord.Time
