import WarheadDiscord.Lib.Calendar
import WarheadDiscord.Shared.PackGUID

/-!
# Packed times

A time is packed into the fields of its date, in 32 bits and without the seconds.  The time zone
is UTC, so `localtime_r` and `mktime` are the civil calendar.

* `mktime_localtime`: the calendar gives every time back.
* `packDate_toNat`, `unpackDate_packDate`: each field comes out as it went in, apart from the year.
* `packedTime_iff`: which times are read back.
-/

namespace WarheadDiscord

open Lib

/-! ### The calendar of the C library -/

/-- `std::tm`, with the fields that are read. -/
structure Tm where
  tmSec : Nat := 0
  tmMin : Nat := 0
  tmHour : Nat := 0
  /-- From 1. -/
  tmMday : Nat := 0
  /-- From 0. -/
  tmMon : Nat := 0
  /-- From 1900. -/
  tmYear : Nat := 0
  /-- From Sunday. -/
  tmWday : Nat := 0
  deriving DecidableEq, Repr

/-- `localtime_r`, for times from 1970 on. -/
def localtime (time : Nat) : Tm where
  tmSec := time % 60
  tmMin := time / 60 % 60
  tmHour := time / 3600 % 24
  tmMday := (civil (time / 86400)).day + 1
  tmMon := (civil (time / 86400)).month
  tmYear := (civil (time / 86400)).year + 70
  -- The first of January 1970 was a Thursday.
  tmWday := (time / 86400 + 4) % 7

/-- The date of a `tm`, from 1970 on. -/
def Tm.date (lt : Tm) : Civil := ⟨lt.tmYear - 70, lt.tmMon, lt.tmMday - 1⟩

/-- `mktime`, for dates from 1970 on. -/
def mktime (lt : Tm) : Nat :=
  dayNumber lt.date * 86400 + lt.tmHour * 3600 + lt.tmMin * 60 + lt.tmSec

/-- `Warhead::Time::TimeBreakdown`: the time 0 stands for the current time. -/
def timeBreakdown (epochTime time : Nat) : Tm := localtime (if time = 0 then epochTime else time)

namespace ByteBuffer

/-! ### The two functions -/

/-- The fields of a date in 32 bits. -/
def packDate (lt : Tm) : UInt32 :=
  (UInt32.ofNat lt.tmYear - 100) <<< 24 ||| UInt32.ofNat lt.tmMon <<< 20 |||
    (UInt32.ofNat lt.tmMday - 1) <<< 14 ||| UInt32.ofNat lt.tmWday <<< 11 |||
    UInt32.ofNat lt.tmHour <<< 6 ||| UInt32.ofNat lt.tmMin

/-- `AppendPackedTime(time_t time)`. -/
def appendPackedTime (epochTime : Nat) (b : ByteBuffer) (time : Nat) : Except Fault ByteBuffer :=
  b.writeUInt32 (packDate (timeBreakdown epochTime time))

/-- The date that is read from 32 bits. -/
def unpackDate (packedDate : UInt32) : Tm where
  tmMin := (packedDate &&& 0x3F).toNat
  tmHour := (packedDate >>> 6 &&& 0x1F).toNat
  tmMday := (packedDate >>> 14 &&& 0x3F).toNat + 1
  tmMon := (packedDate >>> 20 &&& 0xF).toNat
  tmYear := (packedDate >>> 24 &&& 0x1F).toNat + 100

/-- `ReadPackedTime()`. -/
def readPackedTime (b : ByteBuffer) : Except Fault (UInt32 × ByteBuffer) :=
  match b.readUInt32 with
  | .ok (packedDate, b') => .ok (UInt32.ofNat (mktime (unpackDate packedDate)), b')
  | .error e => .error e

end ByteBuffer

/-! ### The calendar -/

theorem localtime_date (time : Nat) : (localtime time).date = civil (time / 86400) := by
  rw [Tm.date, localtime]
  dsimp only
  rw [Nat.add_sub_cancel, Nat.add_sub_cancel]

/-- **`mktime` is the inverse of `localtime_r`.** -/
theorem mktime_localtime (time : Nat) : mktime (localtime time) = time := by
  have hfields : (localtime time).tmHour = time / 3600 % 24 ∧
      (localtime time).tmMin = time / 60 % 60 ∧ (localtime time).tmSec = time % 60 :=
    ⟨rfl, rfl, rfl⟩
  obtain ⟨hhour, hmin, hsec⟩ := hfields
  rw [mktime, localtime_date, dayNumber_civil, hhour, hmin, hsec]
  omega

theorem year_le_iff (time m : Nat) :
    m ≤ (civil (time / 86400)).year ↔ total yearLength m * 86400 ≤ time := by
  rw [← total_le_dayNumber_iff (civil_exists _), dayNumber_civil, Nat.le_div_iff_mul_le (by decide)]

/-- The years 2000, 2032 and 2107. -/
theorem total_yearLength : total yearLength 30 = 10957 ∧ total yearLength 62 = 22645 ∧
    total yearLength 137 = 50038 := by
  decide

namespace ByteBuffer

/-! ### Fields of 32 bits -/

theorem ofNat_shiftLeft {n i : Nat} (hi : i < 32) (h : n * 2 ^ i < 2 ^ 32) :
    (UInt32.ofNat n <<< UInt32.ofNat i).toNat = n <<< i := by
  have hn : n < 2 ^ 32 := Nat.lt_of_le_of_lt (Nat.le_mul_of_pos_right n (Nat.two_pow_pos i)) h
  have hi' : (UInt32.ofNat i).toNat % 32 = i := by
    rw [UInt32.toNat_ofNat']
    omega
  rw [UInt32.toNat_shiftLeft, hi', UInt32.toNat_ofNat', Nat.mod_eq_of_lt hn, Nat.shiftLeft_eq,
    Nat.mod_eq_of_lt h]

theorem ofNat_sub {n m : Nat} (hn : n < 2 ^ 32) (h : m ≤ n) :
    UInt32.ofNat n - UInt32.ofNat m = UInt32.ofNat (n - m) := by
  apply UInt32.toNat_inj.mp
  rw [UInt32.toNat_sub, UInt32.toNat_ofNat', UInt32.toNat_ofNat', UInt32.toNat_ofNat']
  omega

theorem field_toNat (p : UInt32) {i mask : UInt32} (hi : i.toNat < 32) {w : Nat}
    (hmask : mask.toNat = 2 ^ w - 1) :
    (p >>> i &&& mask).toNat = p.toNat / 2 ^ i.toNat % 2 ^ w := by
  rw [UInt32.toNat_and, UInt32.toNat_shiftRight, Nat.mod_eq_of_lt hi, hmask, shiftRight_and]

/-- The fields are inside their bits. -/
structure Packable (lt : Tm) : Prop where
  year : 100 ≤ lt.tmYear ∧ lt.tmYear < 356
  mon : lt.tmMon < 16
  mday : 1 ≤ lt.tmMday ∧ lt.tmMday ≤ 64
  wday : lt.tmWday < 8
  hour : lt.tmHour < 32
  min : lt.tmMin < 64

/-- **The fields of a packed date as a sum.** -/
theorem packDate_toNat {lt : Tm} (h : Packable lt) : (packDate lt).toNat =
    (lt.tmYear - 100) * 2 ^ 24 + lt.tmMon * 2 ^ 20 + (lt.tmMday - 1) * 2 ^ 14 +
      lt.tmWday * 2 ^ 11 + lt.tmHour * 2 ^ 6 + lt.tmMin := by
  obtain ⟨⟨hy1, hy2⟩, hmon, ⟨hd1, hd2⟩, hwday, hhour, hmin⟩ := h
  have hyear : UInt32.ofNat lt.tmYear - 100 = UInt32.ofNat (lt.tmYear - 100) :=
    ofNat_sub (by omega) hy1
  have hday : UInt32.ofNat lt.tmMday - 1 = UInt32.ofNat (lt.tmMday - 1) :=
    ofNat_sub (by omega) hd1
  have s24 : (UInt32.ofNat (lt.tmYear - 100) <<< 24).toNat = (lt.tmYear - 100) <<< 24 :=
    ofNat_shiftLeft (i := 24) (by decide) (by omega)
  have s20 : (UInt32.ofNat lt.tmMon <<< 20).toNat = lt.tmMon <<< 20 :=
    ofNat_shiftLeft (i := 20) (by decide) (by omega)
  have s14 : (UInt32.ofNat (lt.tmMday - 1) <<< 14).toNat = (lt.tmMday - 1) <<< 14 :=
    ofNat_shiftLeft (i := 14) (by decide) (by omega)
  have s11 : (UInt32.ofNat lt.tmWday <<< 11).toNat = lt.tmWday <<< 11 :=
    ofNat_shiftLeft (i := 11) (by decide) (by omega)
  have s6 : (UInt32.ofNat lt.tmHour <<< 6).toNat = lt.tmHour <<< 6 :=
    ofNat_shiftLeft (i := 6) (by decide) (by omega)
  have s0 : (UInt32.ofNat lt.tmMin).toNat = lt.tmMin := by
    rw [UInt32.toNat_ofNat', Nat.mod_eq_of_lt (by omega)]
  rw [packDate, hyear, hday, UInt32.toNat_or, UInt32.toNat_or, UInt32.toNat_or, UInt32.toNat_or,
    UInt32.toNat_or, s24, s20, s14, s11, s6, s0]
  -- The fields stand next to each other, from the year down.
  rw [shiftLeft_or_shiftLeft (w := 4) (by omega) _ 20,
    shiftLeft_or_shiftLeft (w := 6) (by omega) _ 14,
    shiftLeft_or_shiftLeft (w := 3) (by omega) _ 11,
    shiftLeft_or_shiftLeft (w := 5) (by omega) _ 6, shiftLeft_or (by omega)]
  omega

/-- **Each field comes out as it went in**, but of the year only the five low bits. -/
theorem unpackDate_packDate {lt : Tm} (h : Packable lt) : unpackDate (packDate lt) =
    { lt with tmSec := 0, tmYear := (lt.tmYear - 100) % 32 + 100, tmWday := 0 } := by
  have hsum := packDate_toNat h
  obtain ⟨⟨hy1, hy2⟩, hmon, ⟨hd1, hd2⟩, hwday, hhour, hmin⟩ := h
  have hmin' : (packDate lt &&& 0x3F).toNat = lt.tmMin := by
    have hmask : (0x3F : UInt32).toNat = 2 ^ 6 - 1 := rfl
    rw [UInt32.toNat_and, hmask, Nat.and_two_pow_sub_one_eq_mod]
    omega
  have hhour' : (packDate lt >>> 6 &&& 0x1F).toNat = lt.tmHour := by
    rw [field_toNat _ (by decide) (w := 5) rfl]
    change _ / 2 ^ 6 % _ = _
    omega
  have hmday' : (packDate lt >>> 14 &&& 0x3F).toNat + 1 = lt.tmMday := by
    rw [field_toNat _ (by decide) (w := 6) rfl]
    change _ / 2 ^ 14 % _ + 1 = _
    omega
  have hmon' : (packDate lt >>> 20 &&& 0xF).toNat = lt.tmMon := by
    rw [field_toNat _ (by decide) (w := 4) rfl]
    change _ / 2 ^ 20 % _ = _
    omega
  have hyear' : (packDate lt >>> 24 &&& 0x1F).toNat = (lt.tmYear - 100) % 32 := by
    rw [field_toNat _ (by decide) (w := 5) rfl]
    change _ / 2 ^ 24 % _ = _
    omega
  rw [unpackDate, hmin', hhour', hmday', hmon', hyear']

/-! ### The round trip -/

/-- The dates that 32 bits of seconds reach from the year 2000 on can be packed. -/
theorem packable_localtime {time : Nat} (h1 : 946684800 ≤ time) (h2 : time < 2 ^ 32) :
    Packable (localtime time) := by
  obtain ⟨h30, -, h137⟩ := total_yearLength
  have hlow : 30 ≤ (civil (time / 86400)).year := by
    rw [year_le_iff, h30]
    exact h1
  have hhigh : ¬ 137 ≤ (civil (time / 86400)).year := by
    rw [year_le_iff, h137]
    omega
  obtain ⟨hmonth, hday⟩ := civil_exists (time / 86400)
  have hlen := monthLength_le (civil (time / 86400)).year (civil (time / 86400)).month
  constructor
  · change 100 ≤ _ + 70 ∧ _ + 70 < 356
    omega
  · change (civil (time / 86400)).month < 16
    omega
  · change 1 ≤ _ + 1 ∧ _ + 1 ≤ 64
    omega
  · change (time / 86400 + 4) % 7 < 8
    omega
  · change time / 3600 % 24 < 32
    omega
  · change time / 60 % 60 < 64
    omega

/-- The time that is read where `time` was written. -/
def rereadTime (time : Nat) : Nat := mktime (unpackDate (packDate (localtime time)))

/-- The date with the year modulo 32, from 2000 on. -/
def wrapYear (c : Civil) : Civil := ⟨(c.year - 30) % 32 + 30, c.month, c.day⟩

theorem rereadTime_eq {time : Nat} (h1 : 946684800 ≤ time) (h2 : time < 2 ^ 32) :
    rereadTime time =
      dayNumber (wrapYear (civil (time / 86400))) * 86400 + time % 86400 / 60 * 60 := by
  rw [rereadTime, unpackDate_packDate (packable_localtime h1 h2), mktime, Tm.date, wrapYear]
  have hyear : (localtime time).tmYear - 100 = (civil (time / 86400)).year - 30 := by
    change (civil (time / 86400)).year + 70 - 100 = _
    omega
  have hday : (localtime time).tmMday - 1 = (civil (time / 86400)).day := Nat.add_sub_cancel ..
  have hmon : (localtime time).tmMon = (civil (time / 86400)).month := rfl
  have hhour : (localtime time).tmHour = time / 3600 % 24 := rfl
  have hmin : (localtime time).tmMin = time / 60 % 60 := rfl
  have hshift : (((civil (time / 86400)).year - 30) % 32 + 100) - 70 =
      ((civil (time / 86400)).year - 30) % 32 + 30 := by omega
  dsimp only
  rw [hyear, hday, hmon, hhour, hmin, hshift]
  omega

/-- **Which times are read back.**  Those before the first of January 2032. -/
theorem rereadTime_eq_iff {time : Nat} (h1 : 946684800 ≤ time) (h2 : time < 2 ^ 32) :
    rereadTime time < 2 ^ 32 ∧ (rereadTime time = time / 60 * 60 ↔ time < 1956528000) := by
  obtain ⟨h30, h62, -⟩ := total_yearLength
  have heq := rereadTime_eq h1 h2
  have hexists := civil_exists (time / 86400)
  have hnumber := dayNumber_civil (time / 86400)
  have hlow : 30 ≤ (civil (time / 86400)).year := by
    rw [year_le_iff, h30]
    exact h1
  have h2032 := year_le_iff time 62
  rw [h62] at h2032
  generalize civil (time / 86400) = c at *
  by_cases ht : time < 1956528000
  · have hyear : (c.year - 30) % 32 + 30 = c.year := by omega
    have hsame : wrapYear c = c := by rw [wrapYear, hyear]
    rw [hsame] at heq
    omega
  · -- The date that is read lies before 2032.
    have hearly : dayNumber (wrapYear c) < 22645 := by
      have hday := hexists.day_lt
      have hlen := monthLength_le c.year c.month
      have hfeb : c.month = 1 → c.day < 29 := by
        intro hm
        rw [hm, monthLength, if_pos rfl] at hday
        split at hday <;> omega
      have hlt := dayNumber_lt_of_month (c := wrapYear c) hexists.month_lt
        (Nat.lt_of_lt_of_le hday hlen) hfeb
      have hmono : total yearLength ((c.year - 30) % 32 + 30 + 1) ≤ total yearLength 62 :=
        total_mono (by omega)
      rw [h62] at hmono
      exact Nat.lt_of_lt_of_le hlt hmono
    omega

theorem reads_packedTime {b : ByteBuffer} {rest : List UInt8} (lt : Tm)
    (h : b.storage.drop b.rpos = toLE 4 (packDate lt).toNat ++ rest) :
    b.readPackedTime = .ok (UInt32.ofNat (mktime (unpackDate (packDate lt))), b.skip 4) := by
  rw [readPackedTime, readUInt32, readAs_eq _ (by decide) (packDate lt).toNat_lt h,
    UInt32.ofNat_toNat]

/-- **Packed times are read back up to the end of 2031.**  For every buffer below the limit of
`append` and every time from 2000 up to the last of 32 bits, `AppendPackedTime` writes four bytes,
and `ReadPackedTime` in front of them gives the time, rounded down to the minute, exactly when the
time lies before 2032. -/
theorem packedTime_iff (epochTime : Nat) (b : ByteBuffer) (hb : b.size < 10000000) (time : Nat)
    (h1 : 946684800 ≤ time) (h2 : time < 2 ^ 32) :
    ∃ b' r, b.appendPackedTime epochTime time = .ok b' ∧ b'.wpos = b.wpos + 4 ∧
      ({ b' with rpos := b.wpos } : ByteBuffer).readPackedTime =
        .ok (r, { b' with rpos := b'.wpos }) ∧
      (r.toNat = time / 60 * 60 ↔ time < 1956528000) := by
  have hbreakdown : timeBreakdown epochTime time = localtime time := by
    rw [timeBreakdown, if_neg (by omega)]
  have hlen := toLE_length 4 (packDate (localtime time)).toNat
  have hne : toLE 4 (packDate (localtime time)).toNat ≠ [] := List.cons_ne_nil _ _
  obtain ⟨b', happend, -, hwpos, -, hdrop, -⟩ := append_spec b hne hb
  rw [hlen] at hwpos
  have hread := reads_packedTime (b := { b' with rpos := b.wpos }) _ hdrop
  obtain ⟨hfits, hiff⟩ := rereadTime_eq_iff h1 h2
  refine ⟨b', UInt32.ofNat (rereadTime time), ?_, hwpos, ?_, ?_⟩
  · rw [appendPackedTime, hbreakdown]
    exact happend
  · rw [hread, hwpos]
    rfl
  · rw [UInt32.toNat_ofNat', Nat.mod_eq_of_lt hfits]
    exact hiff

/-- The last second of February 2024. -/
theorem packedTime_iff_leap : ∃ b' r, new.appendPackedTime 0 1709251199 = .ok b' ∧
    ({ b' with rpos := 0 } : ByteBuffer).readPackedTime = .ok (r, { b' with rpos := b'.wpos }) ∧
    r.toNat = 1709251140 := by
  obtain ⟨b', r, happend, -, hread, hiff⟩ :=
    packedTime_iff 0 new (by decide) 1709251199 (by decide) (by decide)
  exact ⟨b', r, happend, hread, hiff.mpr (by decide)⟩

/-- **The first second of 2032 is read as the first of 2000.** -/
theorem packedTime_2032 : (match new.appendPackedTime 0 1956528000 with
    | .ok b' => b'.readPackedTime
    | .error e => .error e) = .ok (946684800, ⟨4, 4, [0, 32, 0, 32]⟩) := by
  decide

end ByteBuffer

end WarheadDiscord
