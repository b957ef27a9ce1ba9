import Mathlib.Data.List.Basic
import Mathlib.Tactic.Common

/-!
# Frames in a stream

A stream format says what the front of a stream shows: a whole frame, a refusal,
or neither yet.  Once a frame or a refusal shows, more data behind it changes
nothing; this is all that a format has to promise (`Format`).

* `Format.parse`: the frames of a whole stream, and what is left at its end.
* `Format.parse_append`: parsing in two pieces.  The second piece starts with
  what the first one left open.
* `Format.Writes`, `Format.parse_write`: an encoder whose frames the format
  reads back, and the round trip of a list of frames.
* `Format.parse_of_prefix`: the same when only the first bytes have arrived.
-/

namespace WarheadDiscord.Lib

/-- What the front of a stream shows. -/
inductive Look (α φ : Type*) where
  | more
  | bad
  | frame (f : φ) (rest : List α)

/-- How a stream ends: with the items of a frame that is not complete, or refused. -/
inductive Tail (α : Type*) where
  | open (rest : List α)
  | bad
  deriving DecidableEq

/-- A stream format. -/
structure Format (α φ : Type*) where
  look : List α → Look α φ
  shorter : ∀ {xs f rest}, look xs = .frame f rest → rest.length < xs.length
  frame_append : ∀ {xs f rest}, look xs = .frame f rest →
    ∀ ys, look (xs ++ ys) = .frame f (rest ++ ys)
  bad_append : ∀ {xs}, look xs = .bad → ∀ ys, look (xs ++ ys) = .bad

namespace Format

variable {α φ : Type*} (F : Format α φ)

/-- The first frames of a stream, at most as many as the fuel. -/
def parseN : Nat → List α → List φ × Tail α
  | 0, xs => ([], .open xs)
  | n + 1, xs =>
    match F.look xs with
    | .more => ([], .open xs)
    | .bad => ([], .bad)
    | .frame f rest => (f :: (parseN n rest).1, (parseN n rest).2)

/-- **The one-shot parser.**  A frame takes at least one item, so the length of
the stream is fuel enough. -/
def parse (xs : List α) : List φ × Tail α := F.parseN (xs.length + 1) xs

theorem parseN_eq_parse : ∀ (n : Nat) (xs : List α), xs.length < n →
    F.parseN n xs = F.parse xs := by
  intro n
  induction n using Nat.strongRecOn with
  | ind n ih =>
    intro xs hn
    obtain ⟨n, rfl⟩ : ∃ m, n = m + 1 := ⟨n - 1, by omega⟩
    rw [parse, parseN, parseN]
    cases hl : F.look xs with
    | more => rfl
    | bad => rfl
    | frame f rest =>
      have hlt := F.shorter hl
      simp only [ih n (by omega) rest (by omega)]
      by_cases he : xs.length = n
      · subst he; simp only [ih xs.length (by omega) rest hlt]
      · simp only [ih xs.length (by omega) rest hlt]

variable {F} {xs ys rest : List α} {f : φ}

theorem parse_of_more (h : F.look xs = .more) : F.parse xs = ([], .open xs) := by
  rw [parse, parseN, h]

theorem parse_of_bad (h : F.look xs = .bad) : F.parse xs = ([], .bad) := by
  rw [parse, parseN, h]

theorem parse_of_frame (h : F.look xs = .frame f rest) :
    F.parse xs = (f :: (F.parse rest).1, (F.parse rest).2) := by
  rw [parse, parseN, h]
  simp only [F.parseN_eq_parse xs.length rest (F.shorter h)]

/-- Induction along the frames of a stream. -/
theorem parse_induct {motive : List α → Prop}
    (more : ∀ xs, F.look xs = .more → motive xs) (bad : ∀ xs, F.look xs = .bad → motive xs)
    (frame : ∀ xs f rest, F.look xs = .frame f rest → motive rest → motive xs) :
    ∀ xs, motive xs := by
  intro xs
  induction hn : xs.length using Nat.strongRecOn generalizing xs with
  | ind n ih =>
    cases hl : F.look xs with
    | more => exact more xs hl
    | bad => exact bad xs hl
    | frame f rest =>
      have hlt := F.shorter hl
      exact frame xs f rest hl (ih rest.length (by omega) rest rfl)

theorem parse_append_bad : ∀ (xs : List α), (F.parse xs).2 = .bad →
    ∀ ys, F.parse (xs ++ ys) = F.parse xs := by
  intro xs
  induction xs using parse_induct (F := F) with
  | more xs h => intro hb; rw [parse_of_more h] at hb; cases hb
  | bad xs h => intro _ ys; rw [parse_of_bad h, parse_of_bad (F.bad_append h ys)]
  | frame xs f rest h ih =>
    intro hb ys
    rw [parse_of_frame h] at hb ⊢
    rw [parse_of_frame (F.frame_append h ys), ih hb ys]

/-- **Parsing in two pieces.** -/
theorem parse_append : ∀ (xs : List α) {r : List α}, (F.parse xs).2 = .open r →
    ∀ ys, F.parse (xs ++ ys) =
      ((F.parse xs).1 ++ (F.parse (r ++ ys)).1, (F.parse (r ++ ys)).2) := by
  intro xs
  induction xs using parse_induct (F := F) with
  | more xs h =>
    intro r hr ys
    rw [parse_of_more h] at hr ⊢
    cases hr
    rfl
  | bad xs h => intro r hr; rw [parse_of_bad h] at hr; cases hr
  | frame xs f rest h ih =>
    intro r hr ys
    rw [parse_of_frame h] at hr ⊢
    rw [parse_of_frame (F.frame_append h ys), ih hr ys]
    rfl

theorem parse_prefix (xs ys : List α) : (F.parse xs).1 <+: (F.parse (xs ++ ys)).1 := by
  cases ht : (F.parse xs).2 with
  | bad => exact ⟨[], by rw [List.append_nil, parse_append_bad _ ht]⟩
  | «open» r => rw [parse_append _ ht]; exact List.prefix_append _ _

/-! ### The encoder -/

/-- The format reads back every frame in `ok` that `enc` writes. -/
def Writes (F : Format α φ) (ok : φ → Prop) (enc : φ → List α) : Prop :=
  ∀ f, ok f → ∀ ys, F.look (enc f ++ ys) = .frame f ys

/-- **The round trip of a list of frames**, with anything behind it. -/
theorem parse_write {ok : φ → Prop} {enc : φ → List α} (h : F.Writes ok enc) (ys : List α) :
    ∀ fs : List φ, (∀ f ∈ fs, ok f) →
      F.parse (fs.flatMap enc ++ ys) = (fs ++ (F.parse ys).1, (F.parse ys).2) := by
  intro fs
  induction fs with
  | nil => intro _; rfl
  | cons f fs ih =>
    intro hok
    rw [List.flatMap_cons, List.append_assoc, parse_of_frame (h f (hok f (by simp)) _),
      ih fun g hg => hok g (by simp [hg])]
    rfl

/-- **What is read of frames that have not arrived in full**: the first of them, and no
refusal. -/
theorem parse_of_prefix {ok : φ → Prop} {enc : φ → List α} (h : F.Writes ok enc)
    (hnil : F.look [] = .more) {fs : List φ} (hok : ∀ f ∈ fs, ok f)
    (hpre : xs <+: fs.flatMap enc) : (F.parse xs).1 <+: fs ∧ (F.parse xs).2 ≠ .bad := by
  obtain ⟨ys, hys⟩ := hpre
  have hall := parse_write h [] fs hok
  rw [List.append_nil, parse_of_more hnil, List.append_nil, ← hys] at hall
  refine ⟨?_, fun hbad => ?_⟩
  · have hfirst := parse_prefix (F := F) xs ys
    rw [hall] at hfirst
    exact hfirst
  · rw [parse_append_bad xs hbad] at hall
    rw [hall] at hbad
    cases hbad

end Format

end WarheadDiscord.Lib
