/-! Quoted text: a string between two quotation marks, in which each mark that belongs to the string
is written twice. -/

namespace Tabular.Text

def escaped (c : Char) : List Char := if c = '"' then ['"', '"'] else [c]

def quoted (s : String) : String := "\"" ++ String.ofList (s.toList.flatMap escaped) ++ "\""

theorem toList_quoted (s : String) :
    (quoted s).toList = '"' :: (s.toList.flatMap escaped ++ ['"']) := by
  simp [quoted]

end Tabular.Text
