import Neoth.Lib.Joined
import Neoth.Lib.Sha256

/-!
# Transforms

What the compressors of `context/compress` return, and where they put what they drop:
`TransformError`, `ReformatOutput` and `OffloadOutput` of `transform.rs`, `compute_key`,
`marker_for` and `CcrStore` of `ccr.rs`.
-/

open Lib.Encoding Lib.Text

namespace Neoth.Compress

inductive TransformError
  | invalidInput (transform message : String)
  | skipped (transform message : String)
  | internal (transform message : String)
  deriving DecidableEq

structure ReformatOutput where
  output : List Char
  bytesSaved : Nat
  deriving DecidableEq

def ReformatOutput.fromLengths (inputLen : Nat) (output : List Char) : ReformatOutput :=
  ⟨output, inputLen - bytes output⟩

structure OffloadOutput where
  output : List Char
  bytesSaved : Nat
  cacheKey : String

def OffloadOutput.fromLengths (inputLen : Nat) (output : List Char) (cacheKey : String) :
    OffloadOutput :=
  ⟨output, inputLen - bytes output, cacheKey⟩

/-- The trait: what a store is after a payload was put under a hash. -/
class CcrStore (S : Type) where
  put : S → String → List Char → S

/-- A store that keeps every entry. -/
instance : CcrStore (List (String × List Char)) :=
  ⟨fun store hash payload => (hash, payload) :: store⟩

def computeKey [Sha256] (payload : List Char) : String :=
  hexEncode ((Sha256.digest (payload.flatMap String.utf8EncodeChar)).val.take 12)

def markerFor (hash : String) : String := "<<ccr:" ++ hash ++ ">>"

/-- `if !content.ends_with('\n') && out.ends_with('\n') { out.pop(); }`. -/
def restoreEnd (content out : List Char) : List Char :=
  if content.getLast? ≠ some '\n' ∧ out.getLast? = some '\n' then out.dropLast else out

/-- Lines with a newline between them, and one at the end where the content has it. -/
def joinLines (content : List Char) (ls : List (List Char)) : List Char :=
  if content.getLast? = some '\n' then ls.flatMap (· ++ ['\n']) else ['\n'].intercalate ls

theorem restoreEnd_lines (content : List Char) (ls : List (List Char)) :
    restoreEnd content (ls.flatMap (· ++ ['\n'])) = joinLines content ls := by
  unfold restoreEnd joinLines
  by_cases hend : content.getLast? = some '\n'
  · simp [hend]
  · rcases eq_or_ne ls [] with rfl | hne
    · simp [hend]
    · rw [List.flatMap, flatten_map_snoc, intercalate_append_nil hne, if_neg hend,
        if_pos ⟨hend, by simp⟩, List.dropLast_concat]

end Neoth.Compress
