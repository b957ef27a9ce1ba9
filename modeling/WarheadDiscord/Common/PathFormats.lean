import WarheadDiscord.Common.ConfigLayers
import WarheadDiscord.Common.QuotedValues

/-!
# Paths as formats

The message about an option that comes again in a file is printed with the path of the file in
the place of the format.  The exception of `fmt` for a path that is no format is then taken for a
failure of the file.

* `loadFile_path_iff`: when two paths to the same content give the same options.
* `loadFile_brace`: two that do not.
-/

namespace WarheadDiscord.Config

open Lib

variable {p : Platform} {m : Options} {file file₁ file₂ : Str} {isOptional isReload : Bool}

/-- The names of the options of a file, as often as it has them. -/
abbrev File.names (f : File) : List Str := f.options.map Prod.fst

/-- A file is loaded if it has options and no message about them ends with an exception. -/
theorem loadFile_iff :
    (loadFile p m file isOptional isReload).1 = true ↔
      nameCount (p.files file).options % 2 ^ 32 ≠ 0 ∧
        ¬ Rejected p file ∅ (p.files file).names := by
  by_cases hcount : nameCount (p.files file).options % 2 ^ 32 = 0
  · rw [loadFile_uncounted m isOptional isReload hcount]
    exact iff_of_false Bool.false_ne_true fun h => h.1 hcount
  · by_cases hfile : Rejected p file ∅ (p.files file).names
    · rw [loadFile_rejected m isOptional isReload hfile]
      exact iff_of_false Bool.false_ne_true fun h => h.2 hfile
    · exact iff_of_true (loadFile_loaded m isOptional isReload hfile hcount).1 ⟨hcount, hfile⟩

theorem loadFile_congr (hsame : p.files file₁ = p.files file₂)
    (h : (loadFile p m file₁ isOptional isReload).1 = (loadFile p m file₂ isOptional isReload).1)
    (k : Str) :
    (loadFile p m file₁ isOptional isReload).2.lookup k =
      (loadFile p m file₂ isOptional isReload).2.lookup k := by
  cases h₁ : (loadFile p m file₁ isOptional isReload).1 with
  | false => rw [loadFile_failed h₁, loadFile_failed (h ▸ h₁)]
  | true =>
    obtain ⟨hcount₁, hfile₁⟩ := loadFile_iff.mp h₁
    obtain ⟨hcount₂, hfile₂⟩ := loadFile_iff.mp (h ▸ h₁)
    rw [(loadFile_loaded m isOptional isReload hfile₁ hcount₁).2,
      (loadFile_loaded m isOptional isReload hfile₂ hcount₂).2, hsame]

/-- **When two paths give the same options.**  For a content that both lead to, the results and
the stores are the same if and only if the content has no options (or a multiple of 2^32), or
both paths or neither are rejected as the format for an option that comes again. -/
theorem loadFile_path_iff (p : Platform) (m : Options) (file₁ file₂ bytes : Str)
    (readError isOptional isReload : Bool) (h₁ : p.files file₁ = .content bytes readError)
    (h₂ : p.files file₂ = .content bytes readError) :
    ((loadFile p m file₁ isOptional isReload).1 = (loadFile p m file₂ isOptional isReload).1 ∧
        ∀ k, (loadFile p m file₁ isOptional isReload).2.lookup k =
          (loadFile p m file₂ isOptional isReload).2.lookup k) ↔
      nameCount (File.content bytes readError).options % 2 ^ 32 = 0 ∨
        (Rejected p file₁ ∅ (File.content bytes readError).names ↔
          Rejected p file₂ ∅ (File.content bytes readError).names) := by
  have hresult : (loadFile p m file₁ isOptional isReload).1 =
      (loadFile p m file₂ isOptional isReload).1 ↔
      nameCount (File.content bytes readError).options % 2 ^ 32 = 0 ∨
        (Rejected p file₁ ∅ (File.content bytes readError).names ↔
          Rejected p file₂ ∅ (File.content bytes readError).names) := by
    rw [Bool.eq_iff_iff, loadFile_iff, loadFile_iff, h₁, h₂]
    tauto
  rw [← hresult]
  exact ⟨And.left, fun h => ⟨h, loadFile_congr (h₁.trans h₂.symm) h⟩⟩

/-- The same text on every path, where a path with a brace is no format. -/
def anyPath (content : Str) : Platform :=
  { oneFile content with
    formatThrows := fun path _ => ! decide (Plain path)
    formatThrows_of_plain := fun path _ h => by simp [h] }

/-- The option `a` twice. -/
def twice : Str := ofString "a = 1\na = 2\n"

theorem loadFile_path_iff_plain :
    (loadFile (anyPath twice) ∅ [119] false false).1 =
        (loadFile (anyPath twice) ∅ [118] false false).1 ∧
      ∀ k, (loadFile (anyPath twice) ∅ [119] false false).2.lookup k =
        (loadFile (anyPath twice) ∅ [118] false false).2.lookup k := by
  rw [loadFile_path_iff (anyPath twice) ∅ [119] [118] twice false false false rfl rfl]
  exact Or.inr (iff_of_false (not_rejected_of_plain _ (by decide) _ _)
    (not_rejected_of_plain _ (by decide) _ _))

/-- **The path `w` gives the options of a file, and the path `{` does not**, although both lead to
the same content. -/
theorem loadFile_brace :
    (anyPath twice).files [119] = (anyPath twice).files [123] ∧
      (loadFile (anyPath twice) ∅ [119] false false).1 = true ∧
      (loadFile (anyPath twice) ∅ [123] false false).1 = false := by
  refine ⟨rfl, ?_, ?_⟩
  · decide +kernel
  · decide +kernel

end WarheadDiscord.Config
