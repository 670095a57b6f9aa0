/-!
# Number/Word — whole numbers of 64 bits

Counts, limits and times are kept in 64 bits with a sign; what does not fit wraps around.
-/

namespace YouthLang

/-- A whole number in 64 bits. -/
instance Word.ofWhole : Coe Int Int64 := ⟨Int64.ofInt⟩

end YouthLang
