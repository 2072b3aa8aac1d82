/-! The order of text. Strings compare by their UTF-8 bytes, the first differing byte deciding, and
a string that another one extends comes before it. -/

namespace Tabular.Text

def bytes (s : String) : List UInt8 := s.toByteArray.data.toList

theorem bytes_inj {s t : String} : bytes s = bytes t ↔ s = t := by
  constructor
  · intro h
    exact String.toByteArray_inj.mp (ByteArray.ext (Array.toList_inj.mp h))
  · rintro rfl
    rfl

def compareBytes (s t : String) : Ordering := compare (bytes s) (bytes t)

@[simp] theorem compareBytes_eq_iff {s t : String} : compareBytes s t = .eq ↔ s = t :=
  Std.LawfulEqOrd.compare_eq_iff_eq.trans bytes_inj

/-- The strings of a list in the order of their bytes. -/
def sorted (names : List String) : List String :=
  names.mergeSort fun s t => (compareBytes s t).isLE

end Tabular.Text
