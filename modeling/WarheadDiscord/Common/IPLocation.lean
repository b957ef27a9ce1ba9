import WarheadDiscord.Common.Fault
import WarheadDiscord.Common.StringConvert
import WarheadDiscord.Lib.BinarySearch
import WarheadDiscord.Lib.SortedInsert

/-!
# `IpLocationStore`

`IPLocation.cpp`.  The rows of the database file are sorted by their first column and compared
with their neighbours.  An address is then looked up by the second column.

* `getline`, `readRows`, `load`, `getLocationRecord`: the functions of the source.
* `Before`: a record that may be stored in front of another.
* `getLocationRecord_iff`: when the lookup is right for ranges that include both ends.
* `load_iff`: when the check at the end of `Load` is enough for the search.
-/

namespace WarheadDiscord.IPLocation

open Lib Config OptionCache

structure IpLocationRecord where
  ipFrom : UInt32 := 0
  ipTo : UInt32 := 0
  countryCode : Str := []
  countryName : Str := []
  deriving DecidableEq, Repr

/-! ### Rows of the file -/

/-- A `std::ifstream` between two reads. -/
structure Stream where
  rest : Str
  readError : Bool
  good : Bool := true
  deriving DecidableEq, Repr

/-- `std::getline`: the bytes in front of the delimiter, or of the end of the file. -/
def getline (s : Stream) (delimiter : UInt8) : Option (Str × Stream) :=
  if ¬ s.good then none
  else if s.rest = [] then none
  else
    match s.rest.dropWhile (· != delimiter) with
    | _ :: rest => some (s.rest.takeWhile (· != delimiter), { s with rest := rest })
    | [] => if s.readError then none else some (s.rest, { s with rest := [], good := false })

theorem getline_length {s s' : Stream} {delimiter : UInt8} {field : Str}
    (h : getline s delimiter = some (field, s')) : s'.rest.length < s.rest.length := by
  rw [getline] at h
  by_cases hgood : s.good = true
  · rw [if_neg (not_not_intro hgood)] at h
    by_cases hnil : s.rest = []
    · rw [if_pos hnil] at h
      cases h
    · rw [if_neg hnil] at h
      have hdrop := s.rest.length_dropWhile_le (· != delimiter)
      split at h
      case h_1 rest hrest =>
        cases h
        rw [hrest, List.length_cons] at hdrop
        exact hdrop
      case h_2 =>
        by_cases herror : s.readError = true
        · rw [if_pos herror] at h
          cases h
        · rw [if_neg herror] at h
          cases h
          exact List.length_pos_iff.mpr hnil
  · rw [if_pos hgood] at h
    cases h

/-- The fields of a row, as they stand in the file. -/
structure Row where
  ipFrom : Str
  ipTo : Str
  countryCode : Str
  countryName : Str
  deriving DecidableEq, Repr

/-- The four reads of a turn of the loop. -/
def readRow (s : Stream) : Option (Row × Stream) := do
  let (ipFrom, s) ← getline s 44
  let (ipTo, s) ← getline s 44
  let (countryCode, s) ← getline s 44
  let (countryName, s) ← getline s 10
  return (⟨ipFrom, ipTo, countryCode, countryName⟩, s)

theorem readRow_length {s s' : Stream} {row : Row} (h : readRow s = some (row, s')) :
    s'.rest.length < s.rest.length := by
  simp only [readRow, Option.bind_eq_bind, Option.bind_eq_some_iff, Prod.exists] at h
  obtain ⟨ipFrom, s₁, h₁, ipTo, s₂, h₂, countryCode, s₃, h₃, countryName, s₄, h₄, h⟩ := h
  cases h
  have h₁ := getline_length h₁
  have h₂ := getline_length h₂
  have h₃ := getline_length h₃
  have h₄ := getline_length h₄
  omega

def uint32 : IntType := ⟨false, .w32⟩

/-- `StringTo<uint32>`. -/
def stringToUInt32 (s : Str) : Option UInt32 :=
  (uint32.fromChars s).map fun n => UInt32.ofNat n.val.toNat

/-- The record of a row, if its first two fields are numbers. -/
def record (row : Row) : Option IpLocationRecord :=
  let countryName := (row.countryName.filter (· != 13)).filter (· != 10)
  let ipFrom := row.ipFrom.filter (· != 34)
  let ipTo := row.ipTo.filter (· != 34)
  let countryCode := row.countryCode.filter (· != 34)
  let countryName := countryName.filter (· != 34)
  let countryCode := countryCode.map tolower
  match stringToUInt32 ipFrom, stringToUInt32 ipTo with
  | some ipFrom, some ipTo => some ⟨ipFrom, ipTo, countryCode, countryName⟩
  | _, _ => none

/-- The loop over the rows.  `readRow` reads nothing from a stream that is not good. -/
def readRows (s : Stream) : List IpLocationRecord :=
  match h : readRow s with
  | none => []
  | some (row, s') =>
    have := readRow_length h
    (record row).toList ++ readRows s'
termination_by s.rest.length

/-- The records of a file, in its order. -/
def records : File → List IpLocationRecord
  | .missing => []
  | .content bytes readError => readRows { rest := bytes, readError := readError }

/-! ### `Load` and `GetLocationRecord` -/

/-- `std::sort` by `IpFrom`, which may put records with the same `IpFrom` in any order. -/
structure StdSort where
  sort : List IpLocationRecord → List IpLocationRecord
  perm : ∀ l, (sort l).Perm l
  sorted : ∀ l, (sort l).Pairwise fun a b => a.ipFrom ≤ b.ipFrom

/-- A sort by a key that keeps the order of `IpFrom`. -/
def StdSort.byKey (key : IpLocationRecord → Nat)
    (hkey : ∀ a b, key a ≤ key b → a.ipFrom ≤ b.ipFrom) : StdSort where
  sort l := insertSortedAll key l []
  perm l := by simpa using insertSortedAll_perm key l []
  sorted l := (pairwise_insertSortedAll l [] List.Pairwise.nil).imp
    fun {a b} (h : key a ≤ key b) => hkey a b h

def StdSort.stable : StdSort := .byKey (·.ipFrom.toNat) fun _ _ => UInt32.le_iff_toNat_le.mpr

/-- `std::is_sorted`. -/
def isSorted (comp : IpLocationRecord → IpLocationRecord → Bool) : List IpLocationRecord → Bool
  | a :: b :: l => !comp b a && isSorted comp (b :: l)
  | _ => true

/-- The end of `Load`. -/
def sortRecords (sort : StdSort) (l : List IpLocationRecord) :
    Except Fault (List IpLocationRecord) :=
  let store := sort.sort l
  if isSorted (fun a b => a.ipFrom < b.ipTo) store then .ok store
  else .error (.assertion "Overlapping IP ranges detected in database file")

/-- `IpLocationStore::Load`, for the value of the option `IPLocationFile`. -/
def load (sort : StdSort) (files : Str → File) (databaseFilePath : Str) :
    Except Fault (List IpLocationRecord) :=
  if databaseFilePath = [] then .ok []
  else
    match files databaseFilePath with
    | .missing => .ok []
    | file => sortRecords sort (records file)

/-- `IpLocationStore::GetLocationRecord`.  `make_address_v4` is a function of Boost. -/
def getLocationRecord (makeAddressV4 : Str → Except Fault UInt32)
    (store : List IpLocationRecord) (ipAddress : Str) :
    Except Fault (Option IpLocationRecord) := do
  let ip ← makeAddressV4 ipAddress
  match store[upperBound (fun loc => ip < loc.ipTo) store]? with
  | none => return none
  | some itr => if ip < itr.ipFrom then return none else return some itr

/-! ### The check -/

/-- `a` may be stored in front of `b`. -/
def Before (a b : IpLocationRecord) : Prop := a.ipFrom ≤ b.ipFrom ∧ a.ipTo ≤ b.ipFrom

theorem Before.trans {a b c : IpLocationRecord} (hab : Before a b) (hbc : Before b c) :
    Before a c :=
  ⟨UInt32.le_trans hab.1 hbc.1, UInt32.le_trans hab.2 hbc.1⟩

theorem Before.ipTo_le {a b : IpLocationRecord} (hab : Before a b) (hb : b.ipFrom ≤ b.ipTo) :
    a.ipTo ≤ b.ipTo :=
  UInt32.le_trans hab.2 hb

section Check

variable {l store : List IpLocationRecord} {sort : StdSort}

/-- The neighbours are enough. -/
theorem isSorted_iff (hl : l.Pairwise fun a b => a.ipFrom ≤ b.ipFrom) :
    isSorted (fun a b => a.ipFrom < b.ipTo) l = true ↔ l.Pairwise Before := by
  induction l with
  | nil => exact iff_of_true rfl List.Pairwise.nil
  | cons a l ih =>
    cases l with
    | nil => exact iff_of_true rfl (List.pairwise_singleton _ _)
    | cons b l =>
      obtain ⟨ha, hl⟩ := List.pairwise_cons.mp hl
      have hcheck : (!decide (b.ipFrom < a.ipTo)) = true ↔ Before a b := by
        rw [Bool.not_eq_true', decide_eq_false_iff_not, UInt32.not_lt, Before,
          and_iff_right (ha b List.mem_cons_self)]
      rw [isSorted, Bool.and_eq_true, ih hl, hcheck, List.pairwise_cons (a := a)]
      refine and_congr_left fun hbefore => ⟨fun hab c hc => ?_, fun h => h b List.mem_cons_self⟩
      rcases List.mem_cons.mp hc with rfl | hc
      · exact hab
      · exact hab.trans ((List.pairwise_cons.mp hbefore).1 c hc)

theorem sortRecords_ok :
    sortRecords sort l = .ok store ↔ store = sort.sort l ∧ store.Pairwise Before := by
  have hcheck := isSorted_iff (sort.sorted l)
  rw [sortRecords]
  by_cases h : isSorted (fun a b => a.ipFrom < b.ipTo) (sort.sort l) = true
  · rw [if_pos h, Except.ok.injEq]
    constructor
    · rintro rfl
      exact ⟨rfl, hcheck.mp h⟩
    · exact fun hstore => hstore.1.symm
  · rw [if_neg h]
    refine iff_of_false (fun hok => by cases hok) ?_
    rintro ⟨rfl, hbefore⟩
    exact h (hcheck.mpr hbefore)

end Check

/-! ### The lookup -/

section Lookup

variable {makeAddressV4 : Str → Except Fault UInt32} {ipAddress : Str} {ip : UInt32}
  {l store : List IpLocationRecord} {sort : StdSort}

/-- Where the second column does not fall, the search finds the first range that ends behind
the address. -/
theorem getLocationRecord_eq (haddress : makeAddressV4 ipAddress = .ok ip)
    (hstore : store.Pairwise fun a b => a.ipTo ≤ b.ipTo) :
    getLocationRecord makeAddressV4 store ipAddress =
      .ok ((store.find? (ip < ·.ipTo)).filter (·.ipFrom ≤ ip)) := by
  have hp : store.Pairwise fun a b =>
      decide (ip < a.ipTo) = true → decide (ip < b.ipTo) = true :=
    hstore.imp fun hab ha => by
      rw [decide_eq_true_iff] at ha ⊢
      exact UInt32.lt_of_lt_of_le ha hab
  rw [getLocationRecord, haddress, ok_bind, getElem?_upperBound hp]
  cases store.find? (ip < ·.ipTo) with
  | none => rfl
  | some itr =>
    dsimp only
    by_cases hfrom : ip < itr.ipFrom
    · rw [if_pos hfrom, Option.filter_some_neg (by simpa using hfrom)]
      rfl
    · rw [if_neg hfrom, Option.filter_some_pos (by simpa using hfrom)]
      rfl

/-! ### Ranges that include both ends -/

/-- The address is in the range of the record, both ends included. -/
def Contains (r : IpLocationRecord) (ip : UInt32) : Prop := r.ipFrom ≤ ip ∧ ip ≤ r.ipTo

/-- A right answer for ranges that include both ends. -/
def Answers (store : List IpLocationRecord) (ip : UInt32) : Option IpLocationRecord → Prop
  | some found => found ∈ store ∧ Contains found ip
  | none => ∀ r ∈ store, ¬ Contains r ip

/-- The ranges have no address in common. -/
def Disjoint (a b : IpLocationRecord) : Prop := ∀ ip, ¬ (Contains a ip ∧ Contains b ip)

theorem Disjoint.symm {a b : IpLocationRecord} (h : Disjoint a b) : Disjoint b a :=
  fun ip hip => h ip hip.symm

theorem ipTo_lt_ipFrom {a b : IpLocationRecord} (hab : Before a b) (ha : a.ipFrom ≤ a.ipTo)
    (hb : b.ipFrom ≤ b.ipTo) (hdisjoint : Disjoint a b) : a.ipTo < b.ipFrom := by
  refine UInt32.not_le.mp fun hle => hdisjoint a.ipTo ⟨⟨ha, UInt32.le_refl _⟩, hle, ?_⟩
  exact UInt32.le_trans hab.2 hb

/-- A range that ends at the address or in front of it, or starts behind it. -/
theorem not_contains_iff {r : IpLocationRecord} (hr : r.ipFrom ≤ r.ipTo)
    (hip : r.ipTo ≤ ip ∨ ip < r.ipFrom) : ¬ Contains r ip ↔ ip ≠ r.ipTo := by
  rcases hip with hto | hfrom
  · refine not_congr ⟨fun h => UInt32.le_antisymm h.2 hto, ?_⟩
    rintro rfl
    exact ⟨hr, hto⟩
  · refine iff_of_true (fun h => UInt32.not_le.mpr hfrom h.1) ?_
    rintro rfl
    exact UInt32.not_le.mpr hfrom hr

/-- **The lookup misses the last address** of each range, and is right everywhere else. -/
theorem answers_iff (hle : ∀ r ∈ store, r.ipFrom ≤ r.ipTo)
    (hstore : store.Pairwise fun a b => a.ipTo < b.ipFrom) :
    Answers store ip ((store.find? (ip < ·.ipTo)).filter (·.ipFrom ≤ ip)) ↔
      ∀ r ∈ store, ip ≠ r.ipTo := by
  cases hfind : store.find? (ip < ·.ipTo) with
  | none =>
    have hto : ∀ r ∈ store, r.ipTo ≤ ip := fun r hr => by
      simpa using List.find?_eq_none.mp hfind r hr
    exact forall₂_congr fun r hr => not_contains_iff (hle r hr) (.inl (hto r hr))
  | some found =>
    obtain ⟨hfound, before, behind, rfl, hbefore⟩ := List.find?_eq_some_iff_append.mp hfind
    have hfound : ip < found.ipTo := by simpa using hfound
    have hbefore : ∀ r ∈ before, r.ipTo ≤ ip := fun r hr => by simpa using hbefore r hr
    obtain ⟨-, hright, hleft⟩ := List.pairwise_append.mp hstore
    have hbehind : ∀ r ∈ behind, ip < r.ipFrom := fun r hr =>
      UInt32.lt_trans hfound ((List.pairwise_cons.mp hright).1 r hr)
    by_cases hfrom : found.ipFrom ≤ ip
    · rw [Option.filter_some_pos (by simpa using hfrom)]
      refine iff_of_true ⟨by simp, hfrom, UInt32.le_of_lt hfound⟩ ?_
      rintro r hr rfl
      rcases List.mem_append.mp hr with hr' | hr'
      · exact UInt32.not_le.mpr (hleft r hr' found List.mem_cons_self) hfrom
      · rcases List.mem_cons.mp hr' with rfl | hr'
        · exact UInt32.lt_irrefl _ hfound
        · exact UInt32.not_le.mpr (hbehind r hr') (hle r hr)
    · rw [Option.filter_some_neg (by simpa using hfrom)]
      refine forall₂_congr fun r hr => not_contains_iff (hle r hr) ?_
      rcases List.mem_append.mp hr with hr | hr
      · exact .inl (hbefore r hr)
      · rcases List.mem_cons.mp hr with rfl | hr
        · exact .inr (UInt32.not_le.mp hfrom)
        · exact .inr (hbehind r hr)

/-- **Lookup among ranges that include both ends.** -/
theorem getLocationRecord_iff (haddress : makeAddressV4 ipAddress = .ok ip)
    (hload : sortRecords sort l = .ok store) (hle : ∀ r ∈ l, r.ipFrom ≤ r.ipTo)
    (hdisjoint : l.Pairwise Disjoint) :
    (∃ found, getLocationRecord makeAddressV4 store ipAddress = .ok found ∧
        Answers store ip found) ↔
      ∀ r ∈ l, ip ≠ r.ipTo := by
  obtain ⟨rfl, hbefore⟩ := sortRecords_ok.mp hload
  have hperm := sort.perm l
  have hle : ∀ r ∈ sort.sort l, r.ipFrom ≤ r.ipTo := fun r hr => hle r (hperm.mem_iff.mp hr)
  have hdisjoint := (hperm.pairwise_iff fun h => h.symm).mpr hdisjoint
  have hstrict : (sort.sort l).Pairwise fun a b => a.ipTo < b.ipFrom :=
    (hbefore.and hdisjoint).imp_of_mem fun ha hb hab =>
      ipTo_lt_ipFrom hab.1 (hle _ ha) (hle _ hb) hab.2
  have hmono : (sort.sort l).Pairwise fun a b => a.ipTo ≤ b.ipTo :=
    hbefore.imp_of_mem fun _ hb hab => hab.ipTo_le (hle _ hb)
  have hmem : (∀ r ∈ l, ip ≠ r.ipTo) ↔ ∀ r ∈ sort.sort l, ip ≠ r.ipTo :=
    forall_congr' fun r => imp_congr_left hperm.mem_iff.symm
  rw [hmem, ← answers_iff hle hstrict, getLocationRecord_eq haddress hmono]
  constructor
  · rintro ⟨found, hfound, hanswers⟩
    cases hfound
    exact hanswers
  · exact fun hanswers => ⟨_, rfl, hanswers⟩

/-- `make_address_v4` on one text. -/
def addressOf (text : Str) (ip : UInt32) (ipAddress : Str) : Except Fault UInt32 :=
  if ipAddress = text then .ok ip else .error (.outOfRange "make_address_v4")

theorem addressOf_self (text : Str) (ip : UInt32) : addressOf text ip text = .ok ip := if_pos rfl

/-- The file has the second range first. -/
def twoRanges : List IpLocationRecord := [{ ipFrom := 7, ipTo := 9 }, { ipFrom := 1, ipTo := 5 }]

theorem twoRanges_sorted : sortRecords .stable twoRanges = .ok twoRanges.reverse := by
  decide +kernel

theorem twoRanges_disjoint : twoRanges.Pairwise Disjoint := by
  refine List.pairwise_pair.mpr ?_
  rintro ip ⟨⟨hfrom, -⟩, -, hto⟩
  exact absurd (UInt32.le_trans hfrom hto) (by decide)

theorem getLocationRecord_iff_inner :
    (∃ found, getLocationRecord (addressOf (ofString "0.0.0.8") 8) twoRanges.reverse
        (ofString "0.0.0.8") = .ok found ∧ Answers twoRanges.reverse 8 found) ↔
      ∀ r ∈ twoRanges, 8 ≠ r.ipTo :=
  getLocationRecord_iff (addressOf_self _ _) twoRanges_sorted (by decide) twoRanges_disjoint

def oneRange : List IpLocationRecord := [{ ipFrom := 1, ipTo := 5 }]

theorem getLocationRecord_last :
    sortRecords .stable oneRange = .ok oneRange ∧ (∀ r ∈ oneRange, r.ipFrom ≤ r.ipTo) ∧
      oneRange.Pairwise Disjoint ∧
      getLocationRecord (addressOf (ofString "0.0.0.5") 5) oneRange (ofString "0.0.0.5") =
        .ok none ∧
      ∃ r ∈ oneRange, Contains r 5 := by
  refine ⟨rfl, by simp [oneRange], List.pairwise_singleton _ _, ?_, _, List.mem_cons_self, ?_⟩
  · rw [getLocationRecord, addressOf_self]
    rfl
  · exact ⟨by decide, by decide⟩

end Lookup

/-! ### Which orders pass the check -/

/-- `IpFrom`, and among the same ones the records that end in front of it, from the last end to
the first. -/
def latestFirst (r : IpLocationRecord) : Nat :=
  r.ipFrom.toNat * 2 ^ 33 +
    if r.ipTo.toNat ≤ r.ipFrom.toNat then r.ipFrom.toNat - r.ipTo.toNat else 2 ^ 32

/-- The two records in some order pass the check. -/
def Comparable (a b : IpLocationRecord) : Prop := Before a b ∨ Before b a

/-- Where one record may be stored in front of the other, it does not end later. -/
def Consistent (a b : IpLocationRecord) : Prop :=
  (Before a b → a.ipTo ≤ b.ipTo) ∧ (Before b a → b.ipTo ≤ a.ipTo)

theorem Comparable.symm {a b : IpLocationRecord} (h : Comparable a b) : Comparable b a := Or.symm h

theorem Consistent.symm {a b : IpLocationRecord} (h : Consistent a b) : Consistent b a :=
  And.symm h

section Orders

variable {a b : IpLocationRecord}

theorem consistent_of_le (ha : a.ipFrom ≤ a.ipTo) (hb : b.ipFrom ≤ b.ipTo) : Consistent a b :=
  ⟨fun h => h.ipTo_le hb, fun h => h.ipTo_le ha⟩

theorem before_iff : Before a b ↔
    a.ipFrom.toNat ≤ b.ipFrom.toNat ∧ a.ipTo.toNat ≤ b.ipFrom.toNat := by
  rw [Before, UInt32.le_iff_toNat_le, UInt32.le_iff_toNat_le]

theorem ipFrom_le_of_latestFirst (h : latestFirst a ≤ latestFirst b) :
    a.ipFrom.toNat ≤ b.ipFrom.toNat := by
  have ha := a.ipFrom.toNat_lt
  have hb := b.ipFrom.toNat_lt
  unfold latestFirst at h
  split at h <;> split at h <;> omega

/-- Among records that may be stored in both orders, the later end comes first. -/
theorem ipTo_le_of_latestFirst (h : latestFirst a ≤ latestFirst b) (hba : Before b a) :
    Before a b ∧ b.ipTo ≤ a.ipTo := by
  have hfrom := ipFrom_le_of_latestFirst h
  rw [before_iff] at hba
  have heq : a.ipFrom.toNat = b.ipFrom.toNat := Nat.le_antisymm hfrom hba.1
  unfold latestFirst at h
  rw [if_pos (heq ▸ hba.2 : b.ipTo.toNat ≤ b.ipFrom.toNat)] at h
  have hb := b.ipFrom.toNat_lt
  by_cases ha : a.ipTo.toNat ≤ a.ipFrom.toNat
  · rw [if_pos ha] at h
    rw [before_iff, UInt32.le_iff_toNat_le]
    omega
  · rw [if_neg ha] at h
    omega

end Orders

def lateEndsFirst : StdSort :=
  .byKey latestFirst fun _ _ h => UInt32.le_iff_toNat_le.mpr (ipFrom_le_of_latestFirst h)

variable {l : List IpLocationRecord}

/-- **When the second column does not fall in any order** that the check accepts. -/
theorem ordered_iff : (∀ sort store, sortRecords sort l = .ok store →
      store.Pairwise fun a b => a.ipTo ≤ b.ipTo) ↔
    (l.Pairwise Comparable → l.Pairwise Consistent) := by
  constructor
  · intro hall hcomparable
    have hperm := lateEndsFirst.perm l
    have hkey : (lateEndsFirst.sort l).Pairwise fun a b => latestFirst a ≤ latestFirst b :=
      pairwise_insertSortedAll l [] List.Pairwise.nil
    have hcomparable := (hperm.pairwise_iff Comparable.symm).mpr hcomparable
    have hbefore : (lateEndsFirst.sort l).Pairwise Before :=
      (hkey.and hcomparable).imp fun h => h.2.elim id fun hba => (ipTo_le_of_latestFirst h.1 hba).1
    have hmono := hall lateEndsFirst _ (sortRecords_ok.mpr ⟨rfl, hbefore⟩)
    refine (hperm.pairwise_iff Consistent.symm).mp ((hkey.and hmono).imp fun h => ?_)
    exact ⟨fun _ => h.2, fun hba => (ipTo_le_of_latestFirst h.1 hba).2⟩
  · intro hconsistent sort store hload
    obtain ⟨rfl, hbefore⟩ := sortRecords_ok.mp hload
    have hperm := sort.perm l
    have hcomparable := (hperm.pairwise_iff Comparable.symm).mp (hbefore.imp Or.inl)
    have hconsistent := (hperm.pairwise_iff Consistent.symm).mpr (hconsistent hcomparable)
    exact (hbefore.and hconsistent).imp fun h => h.2.1 h.1

/-! ### The whole of `Load` -/

section Load

variable {sort : StdSort} {files : Str → File} {databaseFilePath : Str}
  {store : List IpLocationRecord} {makeAddressV4 : Str → Except Fault UInt32} {ipAddress : Str}
  {ip : UInt32}

/-- The records that `Load` reads. -/
def loaded (files : Str → File) (databaseFilePath : Str) : List IpLocationRecord :=
  if databaseFilePath = [] then [] else records (files databaseFilePath)

theorem load_eq : load sort files databaseFilePath =
    sortRecords sort (loaded files databaseFilePath) := by
  have hnil : sortRecords sort [] = .ok [] := by
    rw [sortRecords, List.perm_nil.mp (sort.perm [])]
    rfl
  rw [load, loaded]
  by_cases hpath : databaseFilePath = []
  · rw [if_pos hpath, if_pos hpath, hnil]
  · rw [if_neg hpath, if_neg hpath]
    cases files databaseFilePath with
    | missing => exact hnil.symm
    | content bytes readError => rfl

/-- A record is the only one that can hold its own addresses in front of its end. -/
theorem getLocationRecord_of_mem (haddress : makeAddressV4 ipAddress = .ok ip)
    (hbefore : store.Pairwise Before) (hmono : store.Pairwise fun a b => a.ipTo ≤ b.ipTo)
    {r : IpLocationRecord} (hr : r ∈ store) (hfrom : r.ipFrom ≤ ip) (hto : ip < r.ipTo) :
    getLocationRecord makeAddressV4 store ipAddress = .ok (some r) := by
  have hfind : store.find? (ip < ·.ipTo) = some r := by
    obtain ⟨before, behind, rfl⟩ := List.append_of_mem hr
    refine List.find?_eq_some_iff_append.mpr ⟨by simpa using hto, before, behind, rfl, ?_⟩
    intro a ha
    have har := (List.pairwise_append.mp hbefore).2.2 a ha r List.mem_cons_self
    simpa using UInt32.le_trans har.2 hfrom
  rw [getLocationRecord_eq haddress hmono, hfind, Option.filter_some_pos (by simpa using hfrom)]

/-- **The check at the end of `Load`** and the search. -/
theorem load_iff (files : Str → File) (databaseFilePath : Str) :
    (∀ sort store, load sort files databaseFilePath = .ok store →
      (store.Pairwise fun a b => a.ipTo ≤ b.ipTo) ∧
        ∀ makeAddressV4 ipAddress ip, makeAddressV4 ipAddress = .ok ip →
          ∀ r ∈ store, r.ipFrom ≤ ip → ip < r.ipTo →
            getLocationRecord makeAddressV4 store ipAddress = .ok (some r)) ↔
      ((loaded files databaseFilePath).Pairwise Comparable →
        (loaded files databaseFilePath).Pairwise Consistent) := by
  rw [← ordered_iff]
  simp only [load_eq]
  refine forall₃_congr fun sort store hload => and_iff_left_of_imp fun hmono => ?_
  intro makeAddressV4 ipAddress ip haddress r hr hfrom hto
  exact getLocationRecord_of_mem haddress (sortRecords_ok.mp hload).2 hmono hr hfrom hto

end Load

theorem readRows_cons {s s' : Stream} {row : Row} (h : readRow s = some (row, s')) :
    readRows s = (record row).toList ++ readRows s' := by
  rw [readRows]
  split
  case h_1 hnone => simp [h] at hnone
  case h_2 row₂ s₂ hsome =>
    rw [h] at hsome
    cases hsome
    rfl

theorem readRows_end {s : Stream} (h : readRow s = none) : readRows s = [] := by
  rw [readRows]
  split
  case h_1 => rfl
  case h_2 hsome => simp [h] at hsome

/-- A file with a row that ends in front of its start. -/
def reversedRow : Str → File := fun _ =>
  .content (ofString "0,10,A,B\n20,5,C,D\n") false

theorem reversedRow_loaded : loaded reversedRow (ofString "ip.csv") =
    [⟨0, 10, ofString "a", ofString "B"⟩, ⟨20, 5, ofString "c", ofString "D"⟩] := by
  have hpath : ofString "ip.csv" ≠ [] := by
    rw [ofString_eq]
    decide
  rw [loaded, if_neg hpath, reversedRow, records]
  simp only [ofString_eq]
  rw [readRows_cons rfl, readRows_cons rfl, readRows_end rfl]
  decide

/-- The check accepts the file, and the address is in the first of its two ranges. -/
theorem load_reversed :
    ∃ store, load .stable reversedRow (ofString "ip.csv") = .ok store ∧
      (¬ store.Pairwise fun a b => a.ipTo ≤ b.ipTo) ∧
      (∃ r ∈ store, r.ipFrom ≤ 7 ∧ 7 < r.ipTo) ∧
      getLocationRecord (addressOf (ofString "0.0.0.7") 7) store (ofString "0.0.0.7") =
        .ok none := by
  rw [load_eq, reversedRow_loaded]
  refine ⟨_, rfl, ?_, ⟨_, List.mem_cons_self, by decide, by decide⟩, ?_⟩
  · intro hmono
    have h := (List.pairwise_cons.mp hmono).1 _ List.mem_cons_self
    exact absurd h (by decide)
  · rw [getLocationRecord, addressOf_self]
    rfl

end WarheadDiscord.IPLocation
